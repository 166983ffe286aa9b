-- The stack of blocks stays in order whatever a program does. Frames are sorted
-- by call depth, no block is entered twice in one call, and every frame belongs
-- to a block of the program. Jumps into and out of blocks, failed calls and
-- recovered errors all keep to this, so no internal error can arise.
import LineBasic.Proofs.Labels
import LineBasic.Proofs.Steps

namespace LineBasic

/-- No member that the program stores into has an empty path. -/
def Program.hasPaths (p : Program) : Bool := p.lines.all fun l => l.statement.hasPaths

theorem Program.hasPaths_statement {p : Program} (h : p.hasPaths = true) {i : Nat} {st : Statement}
    (hst : p.statement? i = some st) : st.hasPaths = true := by
  unfold statement? line? at hst
  obtain ⟨l, hl, rfl⟩ := Option.map_eq_some_iff.1 hst
  exact List.all_eq_true.1 h l (List.mem_of_getElem? hl)

/-! ## Statements and their blocks -/

namespace Statement

theorem eq_endTry {st : Statement} (h : st.closesTry = true) : st = .endTry := by
  unfold closesTry at h
  split at h
  · rfl
  · cases h

end Statement

/-! ## Sound stacks -/

/-- A clause of a block stands strictly inside it. -/
def Frame.Holds (p : Program) (f : Frame) (wanted : Statement → Bool) (line : Nat) : Prop :=
  f.first < line ∧ line < f.last ∧ ∃ st, p.statement? line = some st ∧ wanted st = true

/-- A frame belongs to a block of the program. -/
structure Frame.Fits (p : Program) (f : Frame) : Prop where
  first_lt : f.first < f.last
  last_lt : f.last < p.size
  /-- The first line opens a block of the kind of the frame and finds its last line. -/
  opens : ∃ st, p.statement? f.first = some st ∧ st.role = .opener ∧
    st.blockKind? = some f.kind ∧ p.closer f.first st.closedBy = some f.last
  /-- A TRY block knows the clauses that a search from its first line finds. -/
  clauses : ∀ t, f.state = .try t → t.catchLine = p.closer f.first Statement.isCatch ∧
    t.finallyLine = p.closer f.first Statement.isFinally
  catches : ∀ t line, f.state = .try t → t.catchLine = some line → f.Holds p Statement.isCatch line
  finishes : ∀ t line, f.state = .try t → t.finallyLine = some line →
    f.Holds p Statement.isFinally line
  /-- What waits for the end of a TRY block may be caught further out. -/
  pending : ∀ t e, f.state = .try t → t.pending = some e → e.Mild

structure Frames.Sound (p : Program) (depth : Nat) (fs : Frames) : Prop where
  sorted : fs.items.Pairwise fun f g => f.depth ≤ g.depth
  within : ∀ f ∈ fs.items, f.depth ≤ depth
  distinct : fs.items.Pairwise fun f g => ¬ (f.first = g.first ∧ f.depth = g.depth)
  fits : ∀ f ∈ fs.items, f.Fits p
  limit : fs.limit = maxBlocks
  size : fs.items.length ≤ maxBlocks

structure Control.Sound (p : Program) (c : Control) : Prop where
  frames : c.frames.Sound p c.depth
  callLimit : c.calls.limit = maxCalls
  callSize : c.calls.size ≤ maxCalls
  line : c.line ≤ p.size
  returns : ∀ l, some l ∈ c.calls.items → l ≤ p.size

namespace Frames

variable {p : Program} {depth : Nat} {fs : Frames}

theorem sound_empty (p : Program) (depth : Nat) : Sound p depth Frames.empty where
  sorted := List.Pairwise.nil
  within := by simp [empty]
  distinct := List.Pairwise.nil
  fits := by simp [empty]
  limit := rfl
  size := Nat.zero_le _

/-- Frames may be dropped anywhere in the stack. -/
theorem Sound.sublist {gs : Frames} (h : Sound p depth fs) (hl : gs.limit = fs.limit)
    (hs : gs.items.Sublist fs.items) : Sound p depth gs where
  sorted := h.sorted.sublist hs
  within f hf := h.within f (hs.subset hf)
  distinct := h.distinct.sublist hs
  fits f hf := h.fits f (hs.subset hf)
  limit := hl.trans h.limit
  size := Nat.le_trans hs.length_le h.size

theorem Sound.truncate (h : Sound p depth fs) (n : Nat) : Sound p depth (fs.truncate n) :=
  h.sublist rfl (List.take_sublist n _)

theorem Sound.leave (h : Sound p depth fs) (line d : Nat) : Sound p depth (fs.leave line d) := by
  obtain ⟨n, _, hn⟩ := fs.leave_eq_truncate line d
  rw [hn]
  exact h.truncate n

theorem Sound.deeper {deep : Nat} (h : Sound p depth fs) (hd : depth ≤ deep) : Sound p deep fs :=
  { h with within := fun f hf => Nat.le_trans (h.within f hf) hd }

/-- A stack whose frames are all of calls up to `d` is sound at depth `d`. -/
theorem Sound.shallower {d : Nat} (h : Sound p depth fs) (hd : ∀ f ∈ fs.items, f.depth ≤ d) :
    Sound p d fs :=
  { h with within := hd }

/-- Below a frame there are only frames of the same call and of outer calls. -/
theorem Sound.depth_le_of_mem_take {i : Nat} {f g : Frame} (h : Sound p depth fs)
    (hf : fs.get? i = some f) (hg : g ∈ fs.items.take (i + 1)) : g.depth ≤ f.depth := by
  obtain ⟨hi, hfi⟩ := List.getElem?_eq_some_iff.1 hf
  obtain ⟨j, hj, hgj⟩ := List.mem_iff_getElem.1 hg
  rw [List.length_take] at hj
  rw [List.getElem_take] at hgj
  rcases Nat.lt_or_ge j i with hlt | hge
  · have := List.pairwise_iff_getElem.1 h.sorted j i (by omega) hi hlt
    rwa [hgj, hfi] at this
  · obtain rfl : j = i := by omega
    exact Nat.le_of_eq (congrArg Frame.depth (hgj.symm.trans hfi))

/-- Leaving a call drops exactly the frames of deeper calls. -/
theorem Sound.unwind (h : Sound p depth fs) (d : Nat) : Sound p d (fs.unwind d) := by
  unfold Frames.unwind
  split
  · rename_i i hi
    obtain ⟨f, hf, ht, _⟩ := lastPlace?_eq_some hi
    refine (h.truncate (i + 1)).shallower fun g hg => ?_
    have hle := h.depth_le_of_mem_take hf hg
    have hfd : f.depth ≤ d := by simpa using ht
    omega
  · exact (h.truncate 0).shallower fun g hg => by simp at hg

/-- Changing the state of a frame leaves all blocks where they are. -/
theorem places_modify (fs : Frames) (i : Nat) (state : FrameState) :
    (fs.modify i fun f => { f with state }).items.map (fun f => (f.first, f.depth)) =
      fs.items.map fun f => (f.first, f.depth) := by
  apply List.ext_getElem?
  intro j
  simp only [Stack.modify_items, List.getElem?_map, List.getElem?_modify]
  by_cases hj : i = j
  · cases fs.items[j]? <;> simp [hj]
  · cases fs.items[j]? <;> simp [hj]

/-- The state of a frame may change if the frame still fits. -/
theorem Sound.modify {i : Nat} {state : FrameState} (h : Sound p depth fs)
    (hf : ∀ f, fs.get? i = some f → Frame.Fits p { f with state }) :
    Sound p depth (fs.modify i fun f => { f with state }) := by
  have hplaces := places_modify fs i state
  have hlength := congrArg List.length hplaces
  simp only [List.length_map] at hlength
  -- Order and depths depend on nothing but the places of the frames.
  have hpair : ∀ {R : Nat × Nat → Nat × Nat → Prop},
      fs.items.Pairwise (fun f g => R (f.first, f.depth) (g.first, g.depth)) →
      (fs.modify i fun f => { f with state }).items.Pairwise
        (fun f g => R (f.first, f.depth) (g.first, g.depth)) := by
    intro R hR
    apply List.pairwise_map.1
    rw [hplaces]
    exact List.pairwise_map.2 hR
  refine ⟨hpair (R := fun a b => a.2 ≤ b.2) h.sorted, ?_,
    hpair (R := fun a b => ¬ (a.1 = b.1 ∧ a.2 = b.2)) h.distinct, ?_, h.limit, ?_⟩
  · intro f hf
    have hmem := List.mem_map_of_mem (f := fun f : Frame => (f.first, f.depth)) hf
    rw [hplaces] at hmem
    obtain ⟨g, hg, he⟩ := List.mem_map.1 hmem
    have hd : g.depth = f.depth := congrArg Prod.snd he
    have := h.within g hg
    omega
  · intro g hg
    obtain ⟨j, hj⟩ := List.mem_iff_getElem?.1 hg
    rw [Stack.modify_items, List.getElem?_modify] at hj
    obtain ⟨f, hfj, hgf⟩ := Option.map_eq_some_iff.1 hj
    by_cases hij : i = j
    · subst hij
      rw [if_pos rfl] at hgf
      rw [← hgf]
      exact hf f hfj
    · rw [if_neg hij] at hgf
      rw [← hgf]
      exact h.fits f (List.mem_of_getElem? hfj)
  · rw [hlength]
    exact h.size

/-- A block of the innermost call may be entered. -/
theorem Sound.enter {gs : Frames} {f : Frame} (h : Sound p depth fs) (hd : f.depth = depth)
    (hf : f.Fits p) (he : fs.enter f = .ok gs) : Sound p depth gs := by
  unfold Frames.enter at he
  obtain ⟨hroom, rfl⟩ := Stack.push_eq_ok _ he
  have hleft := h.leave f.first f.depth
  have hgone : ∀ g ∈ (fs.leave f.first f.depth).items,
      ¬ (g.first = f.first ∧ g.depth = f.depth) := fs.not_at_of_mem_leave h.distinct
  have hle : ∀ g ∈ (fs.leave f.first f.depth).items, g.depth ≤ f.depth := by
    intro g hg
    rw [hd]
    rw [hd] at hg
    exact (h.leave f.first depth).within g hg
  refine ⟨?_, ?_, ?_, ?_, hleft.limit, ?_⟩
  · refine List.pairwise_append.2 ⟨hleft.sorted, List.pairwise_singleton _ _, ?_⟩
    intro g hg f' hf'
    obtain rfl := List.mem_singleton.1 hf'
    exact hle g hg
  · intro g hg
    rcases List.mem_append.1 hg with hg | hg
    · exact hleft.within g hg
    · obtain rfl := List.mem_singleton.1 hg
      exact Nat.le_of_eq hd
  · refine List.pairwise_append.2 ⟨hleft.distinct, List.pairwise_singleton _ _, ?_⟩
    intro g hg f' hf'
    obtain rfl := List.mem_singleton.1 hf'
    exact hgone g hg
  · intro g hg
    rcases List.mem_append.1 hg with hg | hg
    · exact hleft.fits g hg
    · obtain rfl := List.mem_singleton.1 hg
      exact hf
  · rw [hleft.limit] at hroom
    rw [List.length_append, List.length_singleton]
    exact hroom

end Frames

/-! ## Frames that fit -/

theorem Error.Mild.code_ne {e : Error} (h : e.Mild) : e.code ≠ .internalError := by
  intro hcode
  unfold Error.Mild Error.isStructural at h
  rw [hcode] at h
  cases h

theorem fresh_sub (p : Program) (line : Nat) : FrameState.sub.Fresh p line (some .sub) :=
  ⟨rfl, fun t h => by cases h⟩

namespace Frame

variable {p : Program} {f : Frame}

/-- A block that was just entered fits. -/
theorem fits_opened {line last : Nat} (depth : Nat) {st : Statement} {state : FrameState}
    (hst : p.statement? line = some st) (hr : st.role = .opener)
    (hl : p.closer line st.closedBy = some last) (hs : state.Fresh p line st.blockKind?) :
    Fits p ⟨line, last, depth, state⟩ := by
  obtain ⟨hlt, hsize, _⟩ := Program.closer_eq_some hl
  -- Both clauses of a TRY block are found before the search for its end stops.
  have hclause : ∀ t wanted i, state = .try t → p.closer line wanted = some i →
      (∀ o, Statement.closesTry o = true → wanted o = false ∧ o.role ≠ .clause) → i < last := by
    intro t wanted i ht hi hstop
    have hkind := hs.1
    rw [ht] at hkind
    have htry : st.closedBy = Statement.closesTry := by
      cases st
      all_goals first | rfl | (cases hkind; done) | cases hr
    rw [htry] at hl
    exact Program.closer_lt_closer hi hl hstop
  refine ⟨hlt, hsize, ⟨st, hst, hr, hs.1.symm, hl⟩, ?_, ?_, ?_, ?_⟩
  · intro t ht
    exact ⟨(hs.2 t ht).1, (hs.2 t ht).2.1⟩
  · intro t i ht hi
    rw [(hs.2 t ht).1] at hi
    obtain ⟨hfirst, _, hw⟩ := Program.closer_eq_some hi
    refine ⟨hfirst, hclause t _ i ht hi fun o ho => ?_, hw⟩
    obtain rfl := Statement.eq_endTry ho
    exact ⟨rfl, by simp [Statement.role]⟩
  · intro t i ht hi
    rw [(hs.2 t ht).2.1] at hi
    obtain ⟨hfirst, _, hw⟩ := Program.closer_eq_some hi
    refine ⟨hfirst, hclause t _ i ht hi fun o ho => ?_, hw⟩
    obtain rfl := Statement.eq_endTry ho
    exact ⟨rfl, by simp [Statement.role]⟩
  · intro t e ht he
    rw [(hs.2 t ht).2.2.1] at he
    cases he

/-- A frame still fits with another state of its kind, if a TRY block keeps its
clauses and what waits in it may be caught. -/
theorem Fits.withState {state : FrameState} (h : f.Fits p) (hk : state.kind = f.kind)
    (ht : ∀ t, state = .try t → ∃ u, f.state = .try u ∧ t.catchLine = u.catchLine ∧
      t.finallyLine = u.finallyLine ∧ ∀ e, t.pending = some e → e.Mild) :
    Fits p { f with state } := by
  refine ⟨h.first_lt, h.last_lt, ?_, ?_, ?_, ?_, ?_⟩
  · obtain ⟨st, hst, hr, hkind, hl⟩ := h.opens
    exact ⟨st, hst, hr, hkind.trans (congrArg some hk.symm), hl⟩
  · intro t hstate
    obtain ⟨u, hu, hcatch, hfinally, _⟩ := ht t hstate
    rw [hcatch, hfinally]
    exact h.clauses u hu
  · intro t line hstate hc
    obtain ⟨u, hu, hcatch, _, _⟩ := ht t hstate
    exact h.catches u line hu (hcatch ▸ hc)
  · intro t line hstate hc
    obtain ⟨u, hu, _, hfinally, _⟩ := ht t hstate
    exact h.finishes u line hu (hfinally ▸ hc)
  · intro t e hstate he
    obtain ⟨_, _, _, _, hpending⟩ := ht t hstate
    exact hpending e he

theorem Fits.keeps {state : FrameState} (h : f.Fits p) (hk : state.kind = f.kind)
    (ht : ∀ t, state = .try t → f.state.Keeps state) : Fits p { f with state } := by
  refine h.withState hk fun t hstate => ?_
  obtain ⟨u, hu, hc, hf, hp⟩ := (ht t hstate).2 t hstate
  exact ⟨u, hu, hc, hf, fun e he => h.pending u e hu (hp ▸ he)⟩

/-- The line at which a TRY block goes on after an error is one of its clauses. -/
theorem Fits.handled {e : Error} {old t : TryBlock} {line : Nat} (h : f.Fits p)
    (hs : f.state = .try old) (hh : Session.handler? old e = some (line, t)) (he : e.Mild) :
    f.first < line ∧ line < f.last ∧ Fits p { f with state := .try t } := by
  have hfits : ∀ t : TryBlock, t.catchLine = old.catchLine → t.finallyLine = old.finallyLine →
      (∀ e, t.pending = some e → e.Mild) → Fits p { f with state := .try t } := by
    intro t hc hf hp
    refine h.withState (by simp [Frame.kind, hs, FrameState.kind]) fun u hu => ?_
    cases hu
    exact ⟨old, hs, hc, hf, hp⟩
  have hpending : ∀ e', some e = some e' → e'.Mild := by
    intro e' he'
    cases he'
    exact he
  unfold Session.handler? at hh
  split at hh
  · rename_i hcatch
    cases hh
    obtain ⟨hlt, hlast, _⟩ := h.catches old line hs hcatch
    exact ⟨hlt, hlast, hfits _ rfl rfl fun _ h => by cases h⟩
  · rename_i hfinally
    cases hh
    obtain ⟨hlt, hlast, _⟩ := h.finishes old line hs hfinally
    exact ⟨hlt, hlast, hfits _ rfl rfl hpending⟩
  · rename_i hfinally
    cases hh
    obtain ⟨hlt, hlast, _⟩ := h.finishes old line hs hfinally
    exact ⟨hlt, hlast, hfits _ rfl rfl hpending⟩
  · cases hh

end Frame

/-! ## One step -/

section Step

variable {p : Program} {c c' : Control} {st : Statement}

namespace Control

theorem Sound.withFrames {fs : Frames} (h : c.Sound p) (hf : fs.Sound p c.depth) :
    Sound p { c with frames := fs } :=
  { h with frames := hf }

/-- A call may be made from any line of the program. -/
theorem Sound.called {calls : Stack (Option Nat)} (h : c.Sound p) (hline : c.line < p.size)
    (hc : c.calls.push (some (c.line + 1)) = .ok calls) : Sound p { c with calls } := by
  obtain ⟨hroom, rfl⟩ := Stack.push_eq_ok _ hc
  refine ⟨?_, h.callLimit, ?_, h.line, ?_⟩
  · refine h.frames.deeper ?_
    simp [depth, Stack.size]
  · rw [h.callLimit] at hroom
    simp only [Stack.size, List.length_append, List.length_singleton]
    exact hroom
  · intro l hl
    rcases List.mem_append.1 hl with hl | hl
    · exact h.returns l hl
    · cases List.mem_singleton.1 hl
      exact hline

namespace InBlock

variable {first i : Nat} {f : Frame}

theorem fits (hb : c.InBlock p st first i f) (hs : c.Sound p) : f.Fits p :=
  hs.frames.fits f (List.mem_of_getElem? hb.frame)

/-- The frame that a line finds is of the kind of its block. -/
theorem kind_eq (hb : c.InBlock p st first i f) (hs : c.Sound p) : some f.kind = st.blockKind? := by
  obtain ⟨g, hg, hfirst, _⟩ := c.frames.place?_eq_some hb.place
  rw [hb.frame] at hg
  cases hg
  obtain ⟨_, o, ho, hopens⟩ := Program.opener_eq_some hb.opener
  obtain ⟨o', ho', _, hkind, _⟩ := (hb.fits hs).opens
  rw [hfirst, ho] at ho'
  cases ho'
  rw [← hkind, (Statement.opens_of_openedBy hopens).2]

end InBlock

end Control

/-- The next clause of a block, or else its end, is a line of the program. -/
theorem Program.getD_closer_lt {start stop : Nat} {wanted : Statement → Bool} (h : stop < p.size) :
    (p.closer start wanted).getD stop < p.size := by
  cases hc : p.closer start wanted with
  | none => exact h
  | some i => exact (Program.closer_eq_some hc).2.1

/-- A move by itself stays at its line. -/
theorem Moves.line_eq {flow : Flow} (hm : Moves p c st flow c') : c'.line = c.line := by
  cases hm <;> rfl

/-- A move keeps a sound stack sound and leads to a line of the program or just
past its end. -/
theorem Moves.sound {flow : Flow} (hm : Moves p c st flow c')
    (hl : Program.LabelsWithin p.labels p.size) (hst : p.statement? c.line = some st)
    (hs : c.Sound p) : c'.Sound p ∧ ∀ target, flow = .jump target → target ≤ p.size := by
  have hline : c.line < p.size := Program.lt_size_of_statement? hst
  have hlast : ∀ {f : Frame}, f ∈ c.frames.items → f.last < p.size :=
    fun hf => (hs.frames.fits _ hf).last_lt
  cases hm with
  | onward _ hf =>
    refine ⟨hs, fun target ht => ?_⟩
    rw [ht] at hf
    cases hf
  | «return» _ => exact ⟨hs, fun _ h => by cases h⟩
  | stop => exact ⟨hs, fun _ h => by cases h⟩
  | goto htarget =>
    refine ⟨hs, fun _ h => ?_⟩
    cases h
    exact hl _ _ htarget
  | gosub htarget hc =>
    refine ⟨hs.called hline hc, fun _ h => ?_⟩
    cases h
    exact hl _ _ htarget
  | passSub hclose =>
    refine ⟨hs, fun _ h => ?_⟩
    cases h
    exact (Program.closer_eq_some hclose).2.1
  | @call _ _ _ _ calls _ hsub hclose hc hf =>
    obtain ⟨other, params, hfirst, _⟩ := Program.subPlace?_eq_some hsub
    obtain ⟨hlt, hsize, _⟩ := Program.closer_eq_some hclose
    have hcalled := hs.called hline hc
    have hfits := Frame.fits_opened calls.size hfirst rfl hclose (fresh_sub p _)
    refine ⟨hcalled.withFrames (hcalled.frames.enter rfl hfits hf), fun _ h => ?_⟩
    cases h
    omega
  | opened hrole hclose hfresh henter hflow =>
    have hfits := Frame.fits_opened c.depth hst hrole hclose hfresh
    refine ⟨hs.withFrames (hs.frames.enter rfl hfits henter), fun target h => ?_⟩
    obtain ⟨_, hsize, _⟩ := Program.closer_eq_some hclose
    rcases hflow with hflow | ⟨_, hflow⟩
    · rw [hflow] at h
      cases h
    · rw [hflow] at h
      cases h
      exact Nat.le_of_lt (Program.getD_closer_lt hsize)
  | passed _ hclose =>
    refine ⟨hs.withFrames (hs.frames.leave _ _), fun _ h => ?_⟩
    cases h
    exact (Program.closer_eq_some hclose).2.1
  | skipped _ _ _ hclose =>
    refine ⟨hs, fun _ h => ?_⟩
    cases h
    exact Nat.le_of_lt (Program.closer_eq_some hclose).2.1
  | clause _ hb ht =>
    refine ⟨hs, fun target h => ?_⟩
    cases h
    have hfits := hb.fits hs
    have hsize := hfits.last_lt
    rcases ht with rfl | ⟨_, rfl⟩ | ⟨t, hstate, hfinally⟩
    · omega
    · exact Nat.le_of_lt (Program.getD_closer_lt hsize)
    · have := (hfits.finishes t _ hstate hfinally).2.1
      omega
  | tookClause _ hb hk ht =>
    refine ⟨hs.withFrames (hs.frames.modify fun g hg => ?_), fun _ h => by cases h⟩
    rw [hb.frame] at hg
    cases hg
    have hkind := hk.trans (hb.kind_eq hs).symm
    exact (hb.fits hs).keeps (Option.some.inj hkind) ht
  | finallyAlone _ => exact ⟨hs, fun _ h => by cases h⟩
  | closed _ _ => exact ⟨hs.withFrames (hs.frames.leave _ _), fun _ h => by cases h⟩
  | closedNothing _ _ => exact ⟨hs, fun _ h => by cases h⟩
  | again _ hb hk =>
    refine ⟨hs.withFrames ((hs.frames.truncate _).modify fun g hg => ?_), fun _ h => ?_⟩
    · rw [c.frames.get?_truncate (Nat.lt_succ_self _), hb.frame] at hg
      cases hg
      exact (hb.fits hs).keeps hk.1 fun _ _ => hk
    · cases h
      have := (Program.opener_eq_some hb.opener).1
      omega
  | left _ _ => exact ⟨hs.withFrames (hs.frames.truncate _), fun _ h => by cases h⟩
  | exit _ hf _ =>
    refine ⟨hs.withFrames (hs.frames.truncate _), fun _ h => ?_⟩
    cases h
    exact hlast (List.mem_of_getElem? hf)
  | toLast _ _ hf =>
    refine ⟨hs.withFrames (hs.frames.truncate _), fun _ h => ?_⟩
    cases h
    exact Nat.le_of_lt (hlast (List.mem_of_getElem? hf))

/-- A failure keeps a sound stack sound. Its error is mild or says how the
program is malformed, unless an empty path was stored into. -/
theorem Fails.sound {e : Error} (hf : Fails p c st e c') (hst : p.statement? c.line = some st)
    (hs : c.Sound p) :
    c'.Sound p ∧ (st.hasPaths = true → e.code ≠ .internalError) := by
  have hline : c.line < p.size := Program.lt_size_of_statement? hst
  cases hf with
  | mild he => exact ⟨hs, fun _ => he.mild.code_ne⟩
  | emptyPath _ h => exact ⟨hs, fun h' => by rw [h] at h'; cases h'⟩
  | mildInLoop he _ hb => exact ⟨hs.withFrames (hs.frames.truncate _), fun _ => he.mild.code_ne⟩
  | mildInCall he hc => exact ⟨hs.called hline hc, fun _ => he.mild.code_ne⟩
  | raised _ hb ht he =>
    exact ⟨hs.withFrames (hs.frames.leave _ _), fun _ => ((hb.fits hs).pending _ _ ht he).code_ne⟩
  | unclosed he _ _ => exact ⟨hs, fun _ => he.code_ne⟩
  | unopened he _ _ => exact ⟨hs, fun _ => he.code_ne⟩
  | clauseUnclosed he _ _ _ _ => exact ⟨hs, fun _ => he.code_ne⟩
  | unentered he _ _ _ => exact ⟨hs, fun _ => he.code_ne⟩
  | otherLoop he _ _ _ => exact ⟨hs, fun _ => he.code_ne⟩
  | noLabel he _ _ => exact ⟨hs, fun _ => he.code_ne⟩
  | noSub he _ => exact ⟨hs, fun _ => he.code_ne⟩
  | subUnclosed he _ _ => exact ⟨hs, fun _ => he.code_ne⟩
  | mismatch hb hk => exact absurd (hb.kind_eq hs) hk

end Step

/-! ## Sessions -/

namespace Control

variable {p : Program} {c : Control}

theorem Sound.goTo {line : Nat} (h : c.Sound p) (hl : line ≤ p.size) : Sound p { c with line } :=
  { h with line := hl }

/-- Leaving the innermost call leaves its blocks too. -/
theorem Sound.returned (h : c.Sound p) :
    Sound p { c with frames := c.frames.unwind (c.depth - 1), calls := c.calls.pop } := by
  have hdepth : c.calls.pop.size = c.depth - 1 := by simp [Stack.pop, Stack.size, depth]
  refine ⟨?_, h.callLimit, ?_, h.line, ?_⟩
  · have hunwound := h.frames.unwind (c.depth - 1)
    rw [← hdepth] at hunwound ⊢
    exact hunwound
  · have := h.callSize
    change c.calls.pop.size ≤ maxCalls
    rw [hdepth, depth]
    omega
  · intro l hl
    exact h.returns l ((List.dropLast_sublist _).subset hl)

/-- A TRY block that takes an error leaves a sound stack. -/
theorem Sound.resumed {i : Nat} {f : Frame} {t : TryBlock} (h : c.Sound p)
    (hf : c.frames.get? i = some f) (ht : Frame.Fits p { f with state := .try t }) :
    Sound p (c.resumed i f.depth t) := by
  have hle := h.frames.within f (List.mem_of_getElem? hf)
  have hdepth := c.depth_resumed i t hle
  have hbelow : Frames.Sound p f.depth (c.frames.truncate (i + 1)) :=
    (h.frames.truncate _).shallower fun g hg => h.frames.depth_le_of_mem_take hf hg
  refine ⟨?_, h.callLimit, ?_, h.line, ?_⟩
  · rw [hdepth]
    refine hbelow.modify fun g hg => ?_
    rw [c.frames.get?_truncate (Nat.lt_succ_self i), hf] at hg
    cases hg
    exact ht
  · have hsize := h.callSize
    change (c.resumed i f.depth t).depth ≤ maxCalls
    rw [hdepth]
    exact Nat.le_trans hle hsize
  · intro l hl
    exact h.returns l (List.mem_of_mem_take hl)

end Control

namespace Session

variable {p : Program} {s : Session}

theorem sound_start (p : Program) (seed : UInt64) (host : Host) :
    (Session.start p seed host).control.Sound p where
  frames := Frames.sound_empty p _
  callLimit := rfl
  callSize := Nat.zero_le _
  line := Nat.zero_le _
  returns l hl := by cases hl

theorem code_inLine (e : Error) (line : Nat) : (e.inLine line).code = e.code := by
  unfold Error.inLine
  split <;> rfl

theorem returnFromCall_sound (hs : s.control.Sound p) : s.returnFromCall.2.control.Sound p := by
  rcases s.returnFromCall_cases with ⟨t, hr, _, _, ht | ht⟩ | ⟨l, t, hr, _, _, htop, ht⟩
  · rw [hr, ht]
    exact hs
  · rw [hr, control_halt, ht]
    exact hs.returned
  · rw [hr, ht]
    refine hs.returned.goTo (hs.returns l ?_)
    exact List.mem_of_getLast? htop

theorem follow_sound {flow : Flow} (hs : s.control.Sound p) (hline : s.line < p.size)
    (hj : ∀ target, flow = .jump target → target ≤ p.size) :
    (s.follow flow).2.control.Sound p := by
  cases flow with
  | next => exact hs.goTo hline
  | jump target => exact hs.goTo (hj target rfl)
  | «return» => exact returnFromCall_sound hs
  | stop => exact hs
  | rest delay => exact hs.goTo hline

/-- However an error ends, the stack stays sound, and what is reported at last is
the error itself or a mild one. -/
theorem recover_sound {e : Error} (hs : s.control.Sound p) :
    (s.recover e).2.control.Sound p ∧
      ∀ e', (s.recover e).1 = .failed e' → e' = e ∨ e'.Mild := by
  rcases s.recover_cases e with ⟨_, hr⟩ | ⟨he, hr⟩
  · rw [hr]
    exact ⟨hs, fun e' h => by cases h; exact Or.inl rfl⟩
  · generalize s.recover e = r at hr
    cases hr with
    | failed _ hl hsub hc =>
      rw [control_halt, hc]
      exact ⟨hs.withFrames (hs.frames.sublist hl hsub), fun e' h => by cases h; exact Or.inl rfl⟩
    | @resumed i line f t _ ht =>
      obtain ⟨old, hstate, hh⟩ := ht.block
      have hfits := hs.frames.fits f (List.mem_of_getElem? ht.frame)
      obtain ⟨_, hlast, hnew⟩ := hfits.handled hstate hh he
      obtain ⟨u, _, _, hu, hres⟩ := s.resume_cases i f line t e
      have hsound : u.control.Sound p := by
        rw [hu]
        exact hs.resumed ht.frame hnew
      rcases hres with hres | ⟨e', hfresh, hres⟩
      · have hnext : line + 1 ≤ p.size := by
          have := hfits.last_lt
          omega
        rw [hres]
        exact ⟨hsound.goTo hnext, fun e' h => by cases h⟩
      · rw [hres]
        exact ⟨hsound, fun e'' h => by cases h; exact Or.inr hfresh.mild⟩

/-- One step keeps the stack sound. -/
theorem step_sound (hl : Program.LabelsWithin s.program.labels s.program.size)
    (hs : s.control.Sound s.program) : s.step.2.control.Sound s.program := by
  have h := s.step_steps
  generalize s.step = r at h
  cases h with
  | idle _ => exact hs
  | pastEnd _ => exact hs
  | moved _ hst hm =>
    obtain ⟨ht, hj⟩ := hm.sound hl hst hs
    refine follow_sound ht ?_ hj
    change (s.withState _).control.line < s.program.size
    rw [control_withState, hm.line_eq]
    exact Program.lt_size_of_statement? hst
  | failed _ hst hf => exact (recover_sound (hf.sound hst hs).1).1

/-- A step that fails with an internal error has stored into an empty path. -/
theorem step_code {e : Error} (hs : s.control.Sound s.program) (he : s.step.1 = .failed e)
    (hpaths : ∀ st, s.program.statement? s.line = some st → st.hasPaths = true) :
    e.code ≠ .internalError := by
  have h := s.step_steps
  generalize s.step = r at h he
  cases h with
  | idle _ => cases he
  | pastEnd _ => cases he
  | moved _ _ _ => exact absurd he (follow_ne_failed _ _ e)
  | @failed st e₀ t _ hst hf =>
    obtain ⟨ht, hcode⟩ := hf.sound hst hs
    rcases (recover_sound ht).2 e he with rfl | hmild
    · rw [code_inLine]
      exact hcode (hpaths st hst)
    · exact hmild.code_ne

theorem reset_sound (hs : s.control.Sound p) : s.reset.control.Sound p where
  frames := by
    have hclear : Frames.Sound p s.control.depth s.frames.clear :=
      hs.frames.sublist rfl (List.nil_sublist _)
    exact hclear.shallower fun f hf => by cases hf
  callLimit := rfl
  callSize := Nat.zero_le _
  line := Nat.zero_le _
  returns l hl := by cases hl

theorem reachable_sound (hp : p.Made) (hs : Reachable p s) :
    s.program = p ∧ s.control.Sound p := by
  refine hs.induct (P := fun s => s.program = p ∧ s.control.Sound p) ?_ ?_ ?_ ?_ ?_
  · exact fun seed host => ⟨rfl, sound_start p seed host⟩
  · rintro s ⟨rfl, hs⟩
    exact ⟨s.program_step, step_sound hp.labelsWithin hs⟩
  · exact fun s hs => ⟨hs.1, reset_sound hs.2⟩
  · exact fun s hs => hs
  · exact fun s _ _ _ hs => hs

/-- Whatever a program does, its stack of blocks stays sound: sorted by call
depth, without doubles, made of blocks of the program, and within its limits. -/
theorem the_stack_of_blocks_stays_sound (hp : p.Made) (hs : Reachable p s) : s.control.Sound p :=
  (reachable_sound hp hs).2

theorem the_stack_is_sound_in_a_try_block :
    let p := Program.ofLines [⟨0, .try⟩, ⟨1, .stop⟩, ⟨0, .finally⟩, ⟨0, .endTry⟩]
    (Session.start p 7 {}).step.2.control.Sound p :=
  the_stack_of_blocks_stays_sound (.ofLines _) (.step (.start 7 {}))

/-! ## No internal error -/

theorem reachable_step_code {e : Error} (hp : p.Made)
    (hpaths : p.hasPaths = true) (hs : Reachable p s)
    (he : s.step.1 = .failed e) : e.code ≠ .internalError := by
  obtain ⟨rfl, hsound⟩ := reachable_sound hp hs
  exact step_code hsound he fun st hst => Program.hasPaths_statement hpaths hst

/-- In a program whose members all have paths, no step and no run fails with an
internal error. -/
theorem no_internal_error_arises (hp : p.Made)
    (hpaths : p.hasPaths = true) (hs : Reachable p s) :
    (∀ e, s.step.1 = .failed e → e.code ≠ .internalError) ∧
      ∀ n times e, (s.executeAt times n).1 = .failed e → e.code ≠ .internalError := by
  refine ⟨fun e => reachable_step_code hp hpaths hs, fun n times e he =>
    hs.execute_failed (Q := fun e => e.code ≠ .internalError) ?_ ?_ he⟩
  · exact fun s e hs => reachable_step_code hp hpaths hs
  · intro line
    simp [Error.interrupted]

theorem no_internal_error_on_a_member :
    let p := Program.ofLines [⟨3, .loop .always⟩, ⟨0, .assign (.member ⟨['R']⟩ [⟨['F']⟩]) (.integer 1)⟩]
    ∀ n times e, ((Session.start p 7 {}).interrupt.executeAt times n).1 = .failed e →
      e.code ≠ .internalError :=
  (no_internal_error_arises (.ofLines _) (by decide) (.interrupt (.start 7 {}))).2

end Session

end LineBasic
