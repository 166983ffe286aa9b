-- What EXIT and CONTINUE act on. Whatever jumps a program has made, they take the
-- topmost block of the current call that is of the kind and name they ask for.
-- Without GOTO every block on the stack is around the current line, so the block
-- they take is the innermost one around it. A GOTO out of a block leaves its
-- frame behind, and then they may take a block that the program is not in.
import LineBasic.Proofs.Around

namespace LineBasic

/-- No line jumps to a label for good. -/
def Program.Gotoless (p : Program) : Prop := ∀ l label, p.statement? l ≠ some (.goto label)

/-- Every block on the stack is around the line seen from its call, and calls are made
from lines that belong to no block's frame. -/
structure Control.Surrounded (p : Program) (c : Control) : Prop extends c.Wraps where
  callers : ∀ k l, k < c.depth → c.At k l → ∃ st, p.statement? l = some st ∧ st.role = .plain

section Surrounded

variable {p : Program} {c c' : Control} {i t : Nat} {f : Frame} {st : Statement}

namespace Control.Surrounded

/-- Going on in the same call or in an outer one, with blocks dropped. -/
theorem back (h : c.Surrounded p)
    (hframes : (c'.frames.items.map Frame.shape).Sublist (c.frames.items.map Frame.shape))
    (hdepth : c'.depth ≤ c.depth) (hcalls : c'.calls.items = c.calls.items.take c'.depth)
    (hin : ∀ f ∈ c'.frames.items, f.depth = c'.depth → f.first < c'.line ∧ c'.line ≤ f.last) :
    c'.Surrounded p := by
  have hat : ∀ {k l}, k < c'.depth → c'.At k l → c.At k l := by
    intro k l hk hl
    refine hl.of_calls hk ?_ (by omega)
    rw [hcalls]
    exact List.getElem?_take_of_lt hk
  refine ⟨⟨?_, ?_⟩, fun k l hk hl => h.callers k l (by omega) (hat hk hl)⟩
  · intro f hf l hl
    rcases hl with ⟨hd, rfl⟩ | ⟨hd, hl⟩
    · exact hin f hf hd
    · obtain ⟨g, hg, hshape⟩ := List.mem_map.1 (hframes.subset (List.mem_map_of_mem hf))
      obtain ⟨hfirst, hlast, hgd, _⟩ := Frame.shape_eq.1 hshape
      rw [← hfirst, ← hlast]
      exact h.around g hg l (hgd ▸ hat hd (Or.inr ⟨hd, hl⟩))
  · have hup : (c.frames.items.map Frame.shape).Pairwise fun a b => a.2.2.1 = b.2.2.1 → a.1 < b.1 :=
      List.pairwise_map.2 h.ascending
    exact List.pairwise_map.1 (hup.sublist hframes)

theorem congr (h : c.Surrounded p) (hframes : c'.frames.items = c.frames.items)
    (hline : c'.line = c.line) (hcalls : c'.calls.items = c.calls.items) : c'.Surrounded p := by
  have hd : c'.depth = c.depth := congrArg List.length hcalls
  refine h.back (hframes ▸ List.Sublist.refl _) (Nat.le_of_eq hd) ?_ fun f hf hfd => ?_
  · rw [hcalls, hd]
    exact (List.take_length ..).symm
  · rw [hline]
    exact h.around f (hframes ▸ hf) c.line (Or.inl ⟨hfd.trans hd, rfl⟩)

/-- Going on elsewhere in the same blocks. -/
theorem goTo (h : c.Surrounded p)
    (hin : ∀ f ∈ c.frames.items, f.depth = c.depth → f.first < t ∧ t ≤ f.last) :
    Surrounded p { c with line := t } :=
  h.back (List.Sublist.refl _) (Nat.le_refl _) (List.take_length ..).symm hin

/-- A new state of the same kind leaves all blocks where they are. -/
theorem withState {state : FrameState} (h : c.Surrounded p) (hf : c.frames.get? i = some f)
    (hk : state.kind = f.kind) :
    Surrounded p { c with frames := c.frames.modify i fun g => { g with state } } := by
  have hshape := Frames.shapes_modify hf hk
  refine h.back (hshape ▸ List.Sublist.refl _) (Nat.le_refl _) (List.take_length ..).symm ?_
  intro g hg hd
  have hmem := List.mem_map_of_mem (f := Frame.shape) hg
  rw [hshape] at hmem
  obtain ⟨g', hg', hsame⟩ := List.mem_map.1 hmem
  obtain ⟨hfirst, hlast, hgd, _⟩ := Frame.shape_eq.1 hsame
  rw [← hfirst, ← hlast]
  exact h.around g' hg' c.line (Or.inl ⟨hgd.trans hd, rfl⟩)

/-- Going on in a block, with all above it and all deeper calls cut off. -/
theorem cut (h : c.Surrounded p) (hs : c.Sound p) (hc : c.Called) (hf : c.frames.get? i = some f)
    (hfirst : f.first < t) (hlast : t ≤ f.last) :
    Surrounded p ⟨t, c.frames.truncate (i + 1), c.calls.truncate f.depth⟩ := by
  have hle := hs.frames.within f (List.mem_of_getElem? hf)
  have hd :
      (⟨t, c.frames.truncate (i + 1), c.calls.truncate f.depth⟩ : Control).depth = f.depth := by
    simp only [depth, Stack.size, Stack.truncate_items, List.length_take] at hle ⊢
    omega
  refine h.back ((List.take_sublist _ _).map _) (by omega) (by rw [hd]; rfl) fun g hg hgd => ?_
  rw [hd] at hgd
  obtain ⟨j, hji, hj⟩ := Stack.exists_of_mem_truncate hg
  rcases Nat.lt_or_ge j i with hlt | hge
  · have hup := h.first_lt hj hf hlt hgd
    have hout := h.last_lt hs hc hj hf hlt hgd
    exact ⟨by dsimp only; omega, by dsimp only; omega⟩
  · obtain rfl : j = i := by omega
    cases hf.symm.trans hj
    exact ⟨hfirst, hlast⟩

/-- Going on in a block of the current call, with all above it cut off. -/
theorem cutHere (h : c.Surrounded p) (hs : c.Sound p) (hc : c.Called)
    (hf : c.frames.get? i = some f) (hd : f.depth = c.depth) (hfirst : f.first < t)
    (hlast : t ≤ f.last) : Surrounded p { c with line := t, frames := c.frames.truncate (i + 1) } := by
  have hcut := h.cut hs hc hf hfirst hlast
  have hcalls : c.calls.truncate f.depth = c.calls := by
    rw [hd]
    exact c.calls.truncate_all (Nat.le_refl _)
  rwa [hcalls] at hcut

/-- Going on after a block of the current call that is left. -/
theorem leave (h : c.Surrounded p) (hs : c.Sound p) (hc : c.Called)
    (hf : c.frames.get? i = some f) (hd : f.depth = c.depth) :
    Surrounded p { c with line := f.last + 1, frames := c.frames.truncate i } := by
  refine h.back ((List.take_sublist _ _).map _) (Nat.le_refl _) (List.take_length ..).symm ?_
  intro g hg hgd
  obtain ⟨j, hji, hj⟩ := Stack.exists_of_mem_truncate hg
  have hsame : g.depth = f.depth := hgd.trans hd.symm
  have hup := h.first_lt hj hf hji hsame
  have hout := h.last_lt hs hc hj hf hji hsame
  have hlt := (hs.frames.fits f (List.mem_of_getElem? hf)).first_lt
  exact ⟨by dsimp only; omega, by dsimp only; omega⟩

/-- Going on at the next line, past no end of a block. -/
theorem next (h : c.Surrounded p) (hl : ∀ f ∈ c.frames.items, f.depth = c.depth → f.last ≠ c.line) :
    Surrounded p { c with line := c.line + 1 } := by
  refine h.goTo fun f hf hd => ?_
  have hin := h.around f hf c.line (hd ▸ .here c)
  have := hl f hf hd
  omega

theorem onward (h : c.Surrounded p) (hs : c.Sound p) (hst : p.statement? c.line = some st)
    (hr : st.role = .plain ∨ st.role = .clause) : Surrounded p { c with line := c.line + 1 } := by
  refine h.next fun f hf _ => (hs.frames.fits f hf).last_ne hst ?_
  rcases hr with hr | hr <;> simp [hr]

/-- Passing over a block that begins at the current line. -/
theorem pass {last : Nat} (h : c.Surrounded p) (hs : c.Sound p)
    (hst : p.statement? c.line = some st) (hr : st.role = .opener)
    (hl : p.closer c.line st.closedBy = some last) : Surrounded p { c with line := last + 1 } := by
  have hlt := (Program.closer_eq_some hl).1
  refine h.goTo fun f hf hd => ?_
  have hin := h.around f hf c.line (hd ▸ .here c)
  have := (hs.frames.fits f hf).closer_lt hin.1 hin.2 hst hr hl
  omega

/-- A block of the current call gets a frame that all others of the call are around. -/
theorem push {g : Frame} (h : c.Surrounded p) (hg : g.depth = c.depth) (hfirst : g.first < t)
    (hlast : t ≤ g.last)
    (hothers : ∀ f ∈ c.frames.items, f.depth = c.depth → f.first < g.first ∧ g.last ≤ f.last) :
    Surrounded p { c with line := t, frames := { c.frames with items := c.frames.items ++ [g] } } := by
  refine ⟨⟨?_, ?_⟩, ?_⟩
  · rintro f hf l (⟨hd, rfl⟩ | hat)
    · rcases List.mem_append.1 hf with hf | hf
      · have := hothers f hf hd
        omega
      · obtain rfl := List.mem_singleton.1 hf
        exact ⟨hfirst, hlast⟩
    · rcases List.mem_append.1 hf with hf | hf
      · exact h.around f hf l (Or.inr hat)
      · obtain rfl := List.mem_singleton.1 hf
        exact absurd hat.1 (by rw [hg]; exact Nat.lt_irrefl _)
  · refine List.pairwise_append.2 ⟨h.ascending, List.pairwise_singleton _ _, ?_⟩
    intro f hf g' hg' hd
    obtain rfl := List.mem_singleton.1 hg'
    exact (hothers f hf (hd.trans hg)).1
  · rintro k l hk (⟨rfl, _⟩ | hat)
    · exact absurd hk (Nat.lt_irrefl _)
    · exact h.callers k l hk (Or.inr hat)

/-- A block that begins at the current line is entered. -/
theorem enter {last : Nat} {state : FrameState} {fs : Frames} (h : c.Surrounded p) (hs : c.Sound p)
    (hst : p.statement? c.line = some st) (hr : st.role = .opener)
    (hl : p.closer c.line st.closedBy = some last)
    (he : c.frames.enter ⟨c.line, last, c.depth, state⟩ = .ok fs) (ht : c.line < t) (ht' : t ≤ last) :
    Surrounded p { c with line := t, frames := fs } := by
  unfold Frames.enter at he
  rw [Frames.leave_of_none _ h.place?_line] at he
  obtain ⟨_, rfl⟩ := Stack.push_eq_ok _ he
  refine h.push rfl ht ht' fun f hf hd => ?_
  have hin := h.around f hf c.line (hd ▸ .here c)
  exact ⟨hin.1, Nat.le_of_lt ((hs.frames.fits f hf).closer_lt hin.1 hin.2 hst hr hl)⟩

/-- A call is made, and nothing of it has a frame yet. -/
theorem called {calls : Stack (Option Nat)} (h : c.Surrounded p) (hs : c.Sound p)
    (hst : p.statement? c.line = some st) (hr : st.role = .plain)
    (hc : c.calls.push (some (c.line + 1)) = .ok calls) (t : Nat) :
    Surrounded p { c with line := t, calls } := by
  obtain ⟨_, rfl⟩ := Stack.push_eq_ok _ hc
  have hback : ∀ {k l}, k ≤ c.depth →
      Control.At { c with line := t, calls := { c.calls with items := c.calls.items ++ [some (c.line + 1)] } } k l →
      c.At k l := by
    rintro k l hk (⟨rfl, _⟩ | ⟨_, hget⟩)
    · simp only [depth, Stack.size, List.length_append, List.length_singleton] at hk
      omega
    · rcases Nat.eq_or_lt_of_le hk with rfl | hlt
      · rw [show c.depth = c.calls.items.length from rfl, List.getElem?_concat_length] at hget
        cases hget
        exact .here c
      · rw [List.getElem?_append_left hlt] at hget
        exact Or.inr ⟨hlt, hget⟩
  refine ⟨⟨fun f hf l hat => h.around f hf l (hback (hs.frames.within f hf) hat), h.ascending⟩, ?_⟩
  intro k l hk hat
  have hk : k < c.depth + 1 := by simpa [depth, Stack.size] using hk
  have hat := hback (Nat.le_of_lt_succ hk) hat
  rcases hat with ⟨rfl, rfl⟩ | ⟨hlt, hget⟩
  · exact ⟨st, hst, hr⟩
  · exact h.callers k l hlt (Or.inr ⟨hlt, hget⟩)

/-- A SUB is entered by a call that has no block yet. -/
theorem entered {first last : Nat} {fs : Frames} (h : c.Surrounded p)
    (he : c.frames.enter ⟨first, last, c.depth, .sub⟩ = .ok fs) (hlt : first < last)
    (hnone : ∀ f ∈ c.frames.items, f.depth < c.depth) :
    Surrounded p { c with line := first + 1, frames := fs } := by
  have hplace : c.frames.place? first c.depth = none := by
    cases hp : c.frames.place? first c.depth with
    | none => rfl
    | some i =>
      obtain ⟨f, hf, _, hd, _⟩ := c.frames.place?_eq_some hp
      have := hnone f (List.mem_of_getElem? hf)
      omega
  unfold Frames.enter at he
  rw [Frames.leave_of_none _ hplace] at he
  obtain ⟨_, rfl⟩ := Stack.push_eq_ok _ he
  refine h.push rfl (Nat.lt_succ_self _) hlt fun f hf hd => ?_
  exact absurd (hnone f hf) (by omega)

/-- A SUB is called, which has no block yet. -/
theorem calledSub {first last : Nat} {calls : Stack (Option Nat)} {fs : Frames}
    {name : Name} {args : List Expression} (h : c.Surrounded p) (hs : c.Sound p)
    (hst : p.statement? c.line = some (.call name args))
    (hclose : p.closer first Statement.closesSub = some last)
    (hcall : c.calls.push (some (c.line + 1)) = .ok calls)
    (henter : c.frames.enter ⟨first, last, calls.size, .sub⟩ = .ok fs) :
    Surrounded p ⟨first + 1, fs, calls⟩ := by
  have hcalled := h.called hs hst rfl hcall first
  obtain ⟨_, rfl⟩ := Stack.push_eq_ok _ hcall
  refine hcalled.entered henter (Program.closer_eq_some hclose).1 fun f hf => ?_
  have hle := hs.frames.within f hf
  have hdepth : c.depth = c.calls.items.length := rfl
  simp only [Control.depth, Stack.size, List.length_append, List.length_singleton]
  omega

/-- A return goes on after the line of the call, in the blocks that it stands in. -/
theorem returned {l : Nat} (h : c.Surrounded p) (hs : c.Sound p) (hc : c.Called)
    (htop : c.calls.top? = some (some l)) :
    Surrounded p ⟨l, c.frames.unwind (c.depth - 1), c.calls.pop⟩ := by
  have hlast : c.calls.items[c.depth - 1]? = some (some l) := by
    rw [← htop]
    exact List.getLast?_eq_getElem?.symm
  have hpos : c.depth - 1 < c.depth := by
    have := (List.getElem?_eq_some_iff.1 hlast).1
    unfold depth Stack.size at *
    omega
  obtain ⟨l, hl⟩ := hc _ (List.mem_of_getElem? hlast)
  cases hl
  have hat : c.At (c.depth - 1) l := Or.inr ⟨hpos, hlast⟩
  obtain ⟨st, hst, hr⟩ := h.callers _ l hpos hat
  have hd :
      (⟨l + 1, c.frames.unwind (c.depth - 1), c.calls.pop⟩ : Control).depth = c.depth - 1 := by
    simp [depth, Stack.size, Stack.pop]
  have hitems := hs.frames.unwind_items (c.depth - 1)
  refine h.back ?_ (by omega) ?_ ?_
  · rw [hitems]
    exact List.filter_sublist.map _
  · rw [hd]
    exact List.dropLast_eq_take
  · intro f hf hfd
    rw [hd] at hfd
    rw [hitems] at hf
    have hf := (List.mem_filter.1 hf).1
    have hin := h.around f hf l (hfd ▸ hat)
    have hne := (hs.frames.fits f hf).last_ne hst (by simp [hr])
    exact ⟨by dsimp only; omega, by dsimp only; omega⟩

end Control.Surrounded

/-- A line of a block may lead to any line of it. -/
theorem Control.InBlock.goesTo {first : Nat} (hb : c.InBlock p st first i f) (h : c.Surrounded p)
    (hs : c.Sound p) (hc : c.Called) (hfirst : f.first < t) (hlast : t ≤ f.last) :
    Surrounded p { c with line := t } := by
  have hcut := h.cutHere hs hc hb.frame hb.depth_eq hfirst hlast
  rwa [c.frames.truncate_all (Nat.le_of_eq (hb.top h.toWraps hs))] at hcut

/-- A move of a program without GOTO leads to a line that all blocks on the stack are
around. -/
theorem Moves.surrounded {flow : Flow} (hm : Moves p c st flow c') (hp : p.Gotoless)
    (hst : p.statement? c.line = some st) (hs : c.Sound p) (hc : c.Called) (h : c.Surrounded p)
    (ht : flow.target? c.line = some t) : Control.Surrounded p { c' with line := t } := by
  cases hm with
  | onward hsteady hf =>
    have hrole : st.role = .plain := by
      rcases hsteady with hsteady | ⟨kind, name, rfl | rfl, _⟩
      · exact Statement.role_of_isSteady hsteady
      · rfl
      · rfl
    rw [Flow.target?_of_isOnward hf ht]
    exact h.onward hs hst (Or.inl hrole)
  | «return» _ | stop => cases ht
  | goto _ => exact absurd hst (hp _ _)
  | gosub _ hcall => exact h.called hs hst rfl hcall t
  | passSub hclose =>
    cases ht
    exact h.pass hs hst rfl hclose
  | call hsub hclose hcall hf =>
    cases ht
    exact h.calledSub hs hst hclose hcall hf
  | opened hrole hclose _ henter hflow =>
    obtain ⟨hlow, hhigh, _⟩ := Program.opened_target hclose hflow ht
    exact h.enter hs hst hrole hclose henter hlow hhigh
  | passed hhead hclose =>
    cases ht
    rw [Frames.leave_of_none _ h.place?_line]
    exact h.pass hs hst (Statement.role_of_headsLoop hhead) hclose
  | skipped hr ho hn hl =>
    cases ht
    exact h.goTo fun f hf hd => h.around_skip hs hst hr ho hn hl hf hd
  | clause hr hb htarget =>
    cases ht
    obtain ⟨hlow, hhigh, _⟩ := hb.clause_target h.toWraps hs hst hr htarget
    exact hb.goesTo h hs hc hlow hhigh
  | tookClause hr hb hk _ =>
    cases ht
    have hkind := Option.some.inj (hk.trans (hb.kind_eq hs).symm)
    exact (h.onward hs hst (Or.inr hr)).withState hb.frame hkind
  | finallyAlone hr =>
    cases ht
    exact h.onward hs hst (Or.inr (by rw [hr]; rfl))
  | @closed _ first hr ho =>
    cases ht
    cases hplace : c.frames.place? first c.depth with
    | none =>
      rw [Frames.leave_of_none _ hplace]
      refine h.next fun f => hs.last_ne_of_unopened hst hr fun other hother => ?_
      cases ho.symm.trans hother
      exact hplace
    | some i =>
      obtain ⟨f, hf, _⟩ := c.frames.place?_eq_some hplace
      have hb : c.InBlock p st _ i f := ⟨ho, hplace, hf⟩
      rw [Frames.leave_of_some _ hplace,
        hb.line_eq_last hs hst (Statement.role_of_closesOnce hr).1]
      exact h.leave hs hc hf hb.depth_eq
  | closedNothing hr ho =>
    cases ht
    exact h.next fun f =>
      hs.last_ne_of_unopened hst hr fun first hfirst => by cases ho.symm.trans hfirst
  | again hr hb hk =>
    cases ht
    rw [← hb.first_eq]
    have hcut := h.cutHere hs hc hb.frame hb.depth_eq (Nat.lt_succ_self _) (hb.fits hs).first_lt
    refine hcut.withState ?_ hk.1
    exact (c.frames.get?_truncate (Nat.lt_succ_self _)).trans hb.frame
  | left hr hb =>
    cases ht
    rw [hb.line_eq_last hs hst (Statement.role_of_closesLoop hr).1]
    exact h.leave hs hc hb.frame hb.depth_eq
  | exit ht' hf _ =>
    cases ht
    exact h.leave hs hc hf (Control.target_depth ht' hf)
  | toLast _ ht' hf =>
    cases ht
    have hfits := hs.frames.fits _ (List.mem_of_getElem? hf)
    exact h.cutHere hs hc hf (Control.target_depth ht' hf) hfits.first_lt (Nat.le_refl _)

end Surrounded

/-! ## Runs without GOTO -/

namespace Session

variable {p : Program} {s t : Session}

/-- What a TRY block that takes an error leaves is around the line it goes on at. -/
theorem FailsWith.surrounded {st : Statement} {e : Error} {u : Session} {i line : Nat} {f : Frame}
    {b new : TryBlock} (h : s.FailsWith st e u) (hr : s.Regular p) (hn : s.control.Surrounded p)
    (hf : u.frames.get? i = some f) (hb : f.state = .try b) (ha : b.Advances e line new) :
    Control.Surrounded p { u.control.resumed i f.depth new with line := line + 1 } := by
  obtain ⟨hget, hframes, hcalls⟩ := h.resumed_eq hr hf
  have hfits := hr.sound.frames.fits f (List.mem_of_getElem? hget)
  obtain ⟨hlow, hhigh, _⟩ := hfits.clause_of_advances hb ha
  have hcut := hn.cut hr.sound hr.called hget (Nat.lt_succ_of_lt hlow) hhigh
  have hsame : Control.Surrounded p ⟨line + 1, u.frames.truncate (i + 1),
      u.control.calls.truncate f.depth⟩ := hcut.congr hframes rfl hcalls
  refine hsame.withState (f := f) ?_ (by simp [Frame.kind, hb, FrameState.kind])
  exact (u.frames.get?_truncate (Nat.lt_succ_self i)).trans hf

theorem step_surrounded (hg : p.Gotoless) (hr : s.Regular p) (h : s.control.Surrounded p)
    (hrun : s.step.2.stopped = false) : s.step.2.control.Surrounded p :=
  control_step hr (fun _ _ _ _ hst hm ht => hm.surrounded hg hst hr.sound hr.called h ht)
    (fun _ htop => h.returned hr.sound hr.called htop)
    (fun _ _ _ _ _ _ _ _ hf hget hb ha => hf.surrounded hr h hget hb ha) hrun

theorem surrounded_empty (c : Control) (_ : c.line = 0) (hf : c.frames.items = [])
    (hc : c.calls.items = []) : c.Surrounded p := by
  have hd : c.depth = 0 := by simp [Control.depth, Stack.size, hc]
  refine ⟨⟨?_, ?_⟩, fun k l hk => ?_⟩
  · rw [hf]
    exact fun f hf => by cases hf
  · rw [hf]
    exact List.Pairwise.nil
  · omega

theorem reachable_surrounded (hg : p.Gotoless) (hp : p.Made) (hs : Reachable p s) :
    s.stopped = false → s.control.Surrounded p :=
  reachable_control hp hs surrounded_empty fun _ hr h hrun => step_surrounded hg hr h hrun

end Session

/-! ## EXIT and CONTINUE -/

/-- A block of a call at a depth that EXIT or CONTINUE with a kind and a name may act
on. A name is about the variable of a FOR loop and says nothing about other blocks. -/
structure Frame.Suits (kind : BlockKind) (name : Option Name) (depth : Nat) (f : Frame) :
    Prop where
  depth : f.depth = depth
  kind : f.kind = kind
  name : ∀ n loop, name = some n → f.state = .for loop → loop.name.alike n = true

theorem Frame.suits_iff {kind : BlockKind} {name : Option Name} {depth : Nat} {f : Frame} :
    f.Suits kind name depth ↔ Run.isTarget kind name depth f = true := by
  simp only [Run.isTarget, Bool.and_eq_true, decide_eq_true_eq]
  constructor
  · intro h
    refine ⟨⟨h.depth, h.kind⟩, ?_⟩
    split
    · rename_i n loop hstate
      exact h.name n loop rfl hstate
    · rfl
  · rintro ⟨⟨hd, hk⟩, hn⟩
    refine ⟨hd, hk, fun n loop hname hstate => ?_⟩
    rw [hname, hstate] at hn
    exact hn

/-- The statement drops the frame of the block that it acts on. A SUB keeps its frame
until it returns. -/
def Statement.dropsBlock : Statement → Bool
  | .exit kind _ => kind ≠ .sub
  | _ => false

namespace Session

variable {p : Program} {s : Session} {st : Statement} {kind : BlockKind} {name : Option Name}

/-- Without a block that suits, EXIT and CONTINUE do nothing. -/
theorem step_without_target (hrun : s.stopped = false)
    (hst : s.program.statement? s.line = some st)
    (hway : st = .exit kind name ∨ st = .continue kind name)
    (ht : s.frames.lastPlace? (Run.isTarget kind name s.depth) = none) :
    s.step = (.onward, s.goTo (s.line + 1)) := by
  have hnone : s.frames.lastPlace? (Run.isTarget kind name s.memory.variables.depth) = none := ht
  refine step_after (P := (· = _)) hrun hst ?_
  rcases hway with rfl | rfl
  · change Run.After (Run.exitStatement kind name) _ _ _ _
    unfold Run.exitStatement Run.target?
    simp only [Run.after_bind, Run.after_frames, Run.after_depth, Run.after_pure, hnone]
    rfl
  · change Run.After (Run.continueStatement kind name) _ _ _ _
    unfold Run.continueStatement Run.target?
    simp only [Run.after_bind, Run.after_frames, Run.after_depth, Run.after_pure, hnone]
    rfl

/-- EXIT and CONTINUE cut the stack at the block that they act on, and lead to the line
after it or to its last line. -/
theorem step_with_target {i : Nat} {f : Frame} (hrun : s.stopped = false)
    (hst : s.program.statement? s.line = some st)
    (hway : st = .exit kind name ∨ st = .continue kind name)
    (ht : s.frames.lastPlace? (Run.isTarget kind name s.depth) = some i)
    (hf : s.frames.get? i = some f) :
    s.step = (.onward,
      if st.dropsBlock then goTo { s with frames := s.frames.truncate i } (f.last + 1)
      else goTo { s with frames := s.frames.truncate (i + 1) } f.last) := by
  have hsome : s.frames.lastPlace? (Run.isTarget kind name s.memory.variables.depth) = some i := ht
  refine step_after (P := (· = _)) hrun hst ?_
  rcases hway with rfl | rfl
  · change Run.After (Run.exitStatement kind name) _ _ _ _
    unfold Run.exitStatement Run.target?
    simp only [Run.after_bind, Run.after_frames, Run.after_depth, Run.after_pure, hsome,
      Run.after_require, hf, Run.after_ite, Run.after_truncate]
    refine ⟨fun g hg => ?_, fun h => by cases h⟩
    cases hg
    refine ⟨fun hk => ?_, fun hk => ?_⟩
    · rw [if_neg (by simp [Statement.dropsBlock, hk])]
      rfl
    · rw [if_pos (by simp [Statement.dropsBlock, hk])]
      rfl
  · change Run.After (Run.continueStatement kind name) _ _ _ _
    unfold Run.continueStatement Run.target?
    simp only [Run.after_bind, Run.after_frames, Run.after_depth, Run.after_pure, hsome,
      Run.after_require, Run.after_truncate, s.frames.get?_truncate (Nat.lt_succ_self i), hf]
    refine ⟨fun g hg => ?_, fun h => by cases h⟩
    cases hg
    rfl

/-- EXIT and CONTINUE act on the topmost block of the current call that suits them, and
on nothing below it; without such a block they do nothing. In a program without GOTO
that block is around the current line, and every other block that suits is around it. -/
theorem exit_and_continue_act_on_the_topmost_block (hp : p.Made) (hs : Reachable p s)
    (hrun : s.stopped = false) (hst : p.statement? s.line = some st)
    (hway : st = .exit kind name ∨ st = .continue kind name) :
    (∀ f ∈ s.frames.items, ¬ f.Suits kind name s.depth) ∧ s.step = (.onward, s.goTo (s.line + 1)) ∨
    ∃ i f, s.frames.get? i = some f ∧ f.Suits kind name s.depth ∧
      (∀ g ∈ s.frames.items.drop (i + 1), ¬ g.Suits kind name s.depth) ∧
      s.step = (.onward,
        if st.dropsBlock then goTo { s with frames := s.frames.truncate i } (f.last + 1)
        else goTo { s with frames := s.frames.truncate (i + 1) } f.last) ∧
      (∀ j g, s.frames.get? j = some g → g.depth < s.depth → j < i) ∧
      (p.Gotoless → f.first < s.line ∧ s.line < f.last ∧
        ∀ g ∈ s.frames.items, g.Suits kind name s.depth → g.first ≤ f.first ∧ f.last ≤ g.last) := by
  have hreg := reachable_regular hp hs
  have hsurrounded := fun hg => reachable_surrounded hg hp hs hrun
  obtain ⟨rfl, hsound, hcalled⟩ := hreg
  cases ht : s.frames.lastPlace? (Run.isTarget kind name s.depth) with
  | none =>
    refine Or.inl ⟨fun f hf hsuits => ?_, step_without_target hrun hst hway ht⟩
    have := lastPlace?_eq_none.1 ht f hf
    rw [Frame.suits_iff.1 hsuits] at this
    cases this
  | some i =>
    obtain ⟨f, hf, hsuits, habove⟩ := lastPlace?_eq_some ht
    have hsuits := Frame.suits_iff.2 hsuits
    have habove : ∀ g ∈ s.frames.items.drop (i + 1), ¬ g.Suits kind name s.depth := by
      intro g hg hgs
      have := habove g hg
      rw [Frame.suits_iff.1 hgs] at this
      cases this
    refine Or.inr ⟨i, f, hf, hsuits, habove, step_with_target hrun hst hway ht hf, ?_, ?_⟩
    · intro j g hg hd
      obtain ⟨hi, hfi⟩ := List.getElem?_eq_some_iff.1 hf
      obtain ⟨hj, hgj⟩ := List.getElem?_eq_some_iff.1 hg
      rcases Nat.lt_trichotomy j i with hlt | rfl | hgt
      · exact hlt
      · cases hf.symm.trans hg
        have := hsuits.depth
        omega
      · have hle := List.pairwise_iff_getElem.1 hsound.frames.sorted i j hi hj hgt
        change s.frames.items[i].depth ≤ s.frames.items[j].depth at hle
        rw [hfi, hgj, hsuits.depth] at hle
        omega
    · intro hg
      have h := hsurrounded hg
      have hdepth : f.depth = s.control.depth := hsuits.depth.trans (State.depth_control _)
      have hin := h.around f (List.mem_of_getElem? hf) s.line (Or.inl ⟨hdepth, rfl⟩)
      have hne := (hsound.frames.fits f (List.mem_of_getElem? hf)).last_ne hst
        (by rcases hway with rfl | rfl <;> simp [Statement.role])
      refine ⟨hin.1, by omega, fun g hg hgs => ?_⟩
      obtain ⟨j, hj⟩ := List.mem_iff_getElem?.1 hg
      rcases Nat.lt_trichotomy j i with hlt | rfl | hgt
      · have hsame := hgs.depth.trans hsuits.depth.symm
        have hup := h.first_lt hj hf hlt hsame
        have hout := h.last_lt hsound hcalled hj hf hlt hsame
        omega
      · cases hf.symm.trans hj
        exact ⟨Nat.le_refl _, Nat.le_refl _⟩
      · refine absurd hgs (habove g (List.mem_of_getElem? (i := j - (i + 1)) ?_))
        rw [List.getElem?_drop, show i + 1 + (j - (i + 1)) = j by omega]
        exact hj

theorem an_exit_leaves_the_loop_around_it :
    let p := Program.ofLines [⟨0, .for ⟨['I', '%']⟩ (.integer 1) (.integer 3) none⟩,
      ⟨1, .exit .for (some ⟨['i', '%']⟩)⟩, ⟨0, .next none⟩]
    let s := (Session.start p 7 {}).step.2
    p.Gotoless ∧ ∃ f ∈ s.frames.items, f.first < s.line ∧ s.line < f.last ∧
      s.step.2.line = f.last + 1 := by
  intro p s
  have hg : p.Gotoless := by
    intro l label
    match l with
    | 0 | 1 | 2 | _ + 3 => exact nofun
  have hline : s.line = 1 := by decide +kernel
  have hst : p.statement? s.line = some (.exit .for (some ⟨['i', '%']⟩)) := by rw [hline]; rfl
  rcases exit_and_continue_act_on_the_topmost_block (.ofLines _) (.step (.start 7 {}))
    (by decide +kernel) hst (Or.inl rfl) with ⟨hnone, _⟩ | ⟨i, f, hf, _, _, hstep, _, hin⟩
  · have hany : s.frames.items.any (Run.isTarget .for (some ⟨['i', '%']⟩) s.depth) = true := by
      decide +kernel
    obtain ⟨f, hf, hsuits⟩ := List.any_eq_true.1 hany
    exact absurd (Frame.suits_iff.2 hsuits) (hnone f hf)
  · refine ⟨hg, f, List.mem_of_getElem? hf, (hin hg).1, (hin hg).2.1, ?_⟩
    rw [hstep]
    rfl

/-- After a GOTO out of a loop the frame of the loop is still there, so an EXIT that is
in no loop goes back to the line after it. -/
theorem an_exit_takes_a_loop_that_was_left :
    let p := Program.ofLines [⟨0, .for ⟨['I', '%']⟩ (.integer 1) (.integer 3) none⟩,
      ⟨1, .goto ⟨['L']⟩⟩, ⟨0, .next none⟩, ⟨0, .label ⟨['L']⟩⟩, ⟨0, .exit .for none⟩]
    let s := (Session.start p 7 {}).step.2.step.2.step.2
    p.Made ∧ Reachable p s ∧ s.stopped = false ∧ p.statement? s.line = some (.exit .for none) ∧
      (∀ f ∈ s.frames.items, f.Suits .for none s.depth → ¬ (f.first < s.line ∧ s.line < f.last)) ∧
      s.step.2.line ≠ s.line + 1 := by
  intro p s
  have hline : s.line = 4 := by decide +kernel
  have hitems : s.frames.items.map (fun f => (f.first, f.last)) = [(0, 2)] := by decide +kernel
  refine ⟨.ofLines _, .step (.step (.step (.start 7 {}))), by decide +kernel, by rw [hline]; rfl, ?_,
    by decide +kernel⟩
  intro f hf _ hin
  have hmem := List.mem_map_of_mem (f := fun f : Frame => (f.first, f.last)) hf
  rw [hitems, List.mem_singleton, Prod.mk.injEq] at hmem
  omega

end Session

end LineBasic
