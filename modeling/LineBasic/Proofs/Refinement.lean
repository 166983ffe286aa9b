-- Stepping a well-nested program line by line comes to the same as running its
-- tree. The proof follows the tree: each body starts and ends with the same
-- blocks open, and a block has one frame more from its first line to its last.
import LineBasic.Proofs.StepLaws

namespace LineBasic

/-! ## Room for blocks -/

/-- Above these blocks, `height` more can be entered from `place` on. -/
structure Frames.Room (fs : Frames) (place height : Nat) : Prop where
  noTry : fs.NoTry
  below : ∀ f ∈ fs.items, f.first < place
  fits : fs.items.length + height ≤ fs.limit

namespace Frames.Room

variable {fs : Frames} {place height : Nat}

theorem mono {place' height' : Nat} (h : fs.Room place height) (hp : place ≤ place')
    (hh : height' ≤ height) : fs.Room place' height' :=
  ⟨h.noTry, fun f hf => Nat.lt_of_lt_of_le (h.below f hf) hp,
    Nat.le_trans (Nat.add_le_add_left hh _) h.fits⟩

/-- No block from `place` on is open. -/
theorem place?_eq_none (h : fs.Room place height) (depth : Nat) :
    fs.place? place depth = none := by
  refine lastPlace?_eq_none.2 fun f hf => ?_
  have := h.below f hf
  simp only [Frame.isAt, Bool.and_eq_false_iff, decide_eq_false_iff_not]
  omega

theorem length_lt (h : fs.Room place (height + 1)) : fs.items.length < fs.limit := by
  have := h.fits
  omega

theorem above {last depth : Nat} {state : FrameState} (h : fs.Room place (height + 1))
    (hs : state.kind ≠ .try) : (fs.above ⟨place, last, depth, state⟩).Room (place + 1) height := by
  refine ⟨h.noTry.above hs, fun f hf => ?_, ?_⟩
  · rcases List.mem_append.1 hf with hf | hf
    · have := h.below f hf
      omega
    · obtain rfl := List.mem_singleton.1 hf
      exact Nat.lt_succ_self place
  · have := h.fits
    simp only [Frames.above, List.length_append, List.length_cons, List.length_nil]
    omega

end Frames.Room

/-! ## Bodies that refine their runs -/

namespace Session

variable {s : Session} {n d : Nat}

/-- Wherever the body stands in the program, stepping through it agrees with its run. -/
def Refines (s : Session) (n d : Nat) (b : Body) : Prop :=
  ∀ place level fs w, s.program.Lays place (b.laid level) → fs.Room place b.height →
    w.depth = d → s.Agrees n d (place + b.size) fs (s.put w place fs) (b.run n place w)

/-- So do all the bodies of a block. -/
def RefinesAll (s : Session) (n d : Nat) : Parts → Prop
  | .last body _ => s.Refines n d body
  | .clause body _ rest => s.Refines n d body ∧ s.RefinesAll n d rest

/-- A run may be followed by steps that leave the world alone. -/
theorem Agrees.onward {line line' : Nat} {fs fs' : Frames} {u : Session} {r : Ending}
    (h : Agrees s n d line fs u r)
    (hw : ∀ w, w.depth = d → ∃ k, Walks k (s.put w line fs) (s.put w line' fs')) :
    Agrees s n d line' fs' u r := by
  cases r with
  | done w =>
    obtain ⟨hd, k, hk⟩ := h
    obtain ⟨m, hm⟩ := hw w hd
    exact ⟨hd, k + m, hk.trans hm⟩
  | failed e w => exact h
  | endless => exact h

/-- A plain line agrees with doing what it says. -/
theorem Agrees.line {st : Statement} {here line : Nat} {fs fs' : Frames} {w : World}
    {next : World → Ending} (hs : st.isSteady = true) (hstop : s.stopped = false)
    (hst : s.program.statement? here = some st) (hf : fs'.NoTry) (hd : w.depth = d)
    (hn : ∀ v, v.depth = d → Agrees s n d line fs (s.put v (here + 1) fs') (next v)) :
    Agrees s n d line fs (s.put w here fs')
      (w.doing here (Run.execute st) fun flow v => next (v.resting flow)) := by
  have hdepth := w.does_depth (Run.steady_execute st hs)
  have hstep := step_steady (w := w) hs hstop hst hf
  unfold World.doing
  generalize w.does (Run.execute st) = r at hstep hdepth
  obtain ⟨e | flow, v⟩ := r
  · exact ⟨0, _, _, _, .refl _, hstep⟩
  · have hv : (v.resting flow).depth = d := (v.resting_depth flow).trans (hdepth.trans hd)
    exact ((hn _ hv).walk (.one hstep)).fewer (Nat.le_succ n)

end Session

/-! ## The body ahead -/

theorem Parts.head_eq (n place : Nat) (parts : Parts) :
    parts.head n place = parts.ahead.run n place := by
  cases parts <;> rw [Parts.head, Parts.ahead]

theorem Parts.height_ahead_le (parts : Parts) : parts.ahead.height ≤ parts.height := by
  cases parts with
  | last body closing => exact Nat.le_refl _
  | clause body dividing rest => exact Nat.le_max_left _ _

theorem Session.RefinesAll.ahead {s : Session} {n d : Nat} {parts : Parts}
    (h : s.RefinesAll n d parts) : s.Refines n d parts.ahead := by
  cases parts with
  | last body closing => exact h
  | clause body dividing rest => exact h.1

namespace BlockAt

variable {p : Program} {place level : Nat} {first : Statement} {behind : List Line} {parts : Parts}

theorem lays_ahead (h : BlockAt p place level first behind parts) :
    p.Lays (place + 1 + behind.length) (parts.ahead.laid (level + 1)) := by
  cases parts with
  | last body closing => exact h.lays_body
  | clause body dividing rest => exact h.lays_clause_body

theorem length_next {body : Body} {dividing : Statement} {rest : Parts}
    (_ : BlockAt p place level first behind (.clause body dividing rest)) :
    place + 1 + (behind ++ (body.laid (level + 1) ++ [(⟨level, dividing⟩ : Line)])).length =
      place + 1 + behind.length + body.size + 1 := by
  simp only [List.length_append, body.length_laid, List.length_cons, List.length_nil]
  omega

/-- The last line stays the same past a clause. -/
theorem last_next {body : Body} {dividing : Statement} {rest : Parts}
    (h : BlockAt p place level first behind (.clause body dividing rest)) :
    place + behind.length + (Parts.clause body dividing rest).size =
      place + (behind ++ (body.laid (level + 1) ++ [(⟨level, dividing⟩ : Line)])).length +
        rest.size := by
  have := h.length_next
  rw [Parts.size]
  omega

/-- Past all clauses. -/
theorem at_last : (parts : Parts) → {behind : List Line} →
    BlockAt p place level first behind parts →
    ∃ passed body closing, BlockAt p place level first passed (.last body closing) ∧
      place + 1 + passed.length + body.size = place + behind.length + parts.size
  | .last body closing, behind, h => by
    refine ⟨behind, body, closing, h, ?_⟩
    rw [Parts.size]
    omega
  | .clause _ _ rest, _, h => by
    obtain ⟨passed, body, closing, hb, hl⟩ := at_last rest h.next
    exact ⟨passed, body, closing, hb, hl.trans h.last_next.symm⟩

end BlockAt

/-! ## Choices -/

namespace Session

section Choices

variable {s : Session} {n d place level last line : Nat} {first : Statement} {behind : List Line}
  {parts : Parts} {fs : Frames} {w : World} {state : FrameState}

/-- The last line of a choice leaves it. -/
theorem leaves_closing (hstop : s.stopped = false) (hs : first.branches = true)
    (hb : BlockAt s.program place level first behind parts)
    (hlast : last = place + behind.length + parts.size)
    (hf : (fs.above ⟨place, last, d, state⟩).NoTry) (hd : w.depth = d) :
    Walks 1 (s.put w last (fs.above ⟨place, last, d, state⟩)) (s.put w (last + 1) fs) := by
  obtain ⟨passed, body, closing, hb', hl⟩ := hb.at_last
  have hline : last = place + 1 + passed.length + body.size := hlast.trans hl.symm
  have hst := hb'.lays_closing.statement
  rw [← hline] at hst
  exact .one ((decides_closing hs hb' hline hd).step hstop hst hf)

/-- From any own line of a choice that is made, the program gets past it. -/
theorem leaves_made (hstop : s.stopped = false) (hs : first.branches = true)
    (hb : BlockAt s.program place level first behind parts)
    (hlast : last = place + behind.length + parts.size)
    (hf : (fs.above ⟨place, last, d, state⟩).NoTry) (hm : state.isMade = true)
    (hk : first.blockKind? = some state.kind) (hd : w.depth = d) :
    ∃ k, Walks k (s.put w (place + 1 + behind.length + parts.ahead.size)
      (fs.above ⟨place, last, d, state⟩)) (s.put w (last + 1) fs) := by
  have hleave := leaves_closing hstop hs hb hlast hf hd
  cases parts with
  | last body closing =>
    refine ⟨1, ?_⟩
    have hline : place + 1 + behind.length + body.size = last := by
      rw [hlast, Parts.size]
      omega
    rw [Parts.ahead, hline]
    exact hleave
  | clause body dividing rest =>
    have hstep := (decides_made hb rfl hm hk hd).step hstop hb.lays_clause.statement hf
    exact ⟨1 + 1, (Walks.one hstep).trans hleave⟩

/-- The branch that is taken, and out of the block. -/
theorem made_refines (hstop : s.stopped = false) (hs : first.branches = true)
    (hb : BlockAt s.program place level first behind parts) (hall : s.RefinesAll n d parts)
    (hlast : last = place + behind.length + parts.size) (hm : state.isMade = true)
    (hk : first.blockKind? = some state.kind) (hr : fs.Room place (parts.height + 1))
    (hd : w.depth = d) :
    s.Agrees n d (last + 1) fs
      (s.put w (place + 1 + behind.length) (fs.above ⟨place, last, d, state⟩))
      (parts.head n (place + 1 + behind.length) w) := by
  have hroom : (fs.above ⟨place, last, d, state⟩).Room (place + 1) parts.height := by
    refine hr.above ?_
    cases state <;> simp_all [FrameState.isMade, FrameState.kind]
  rw [Parts.head_eq]
  refine (hall.ahead _ (level + 1) _ w hb.lays_ahead ?_ hd).onward fun v hv => ?_
  · exact hroom.mono (Nat.le_add_right _ _) parts.height_ahead_le
  · exact leaves_made hstop hs hb hlast hroom.noTry hm hk hv

/-- A line that takes the branch after it or goes on to the next own line of its block. -/
theorem Agrees.choice {ok : Error → Prop} {x : Run Bool} {here t : Nat} {fs' : Frames}
    {top : Bool → Frames} {next : World → Ending} (hx : Run.Steady ok x) (hd : w.depth = d)
    (hstep : (s.put w here fs').step = s.decided here fs' x
      (fun taken => (if taken then t else t + parts.ahead.size, top taken)) w)
    (htaken : ∀ v, v.depth = d → Agrees s n d line fs (s.put v t (top true)) (parts.head n t v))
    (hnext : ∀ v, v.depth = d →
      Agrees s n d line fs (s.put v (t + parts.ahead.size) (top false)) (next v)) :
    Agrees s n d line fs (s.put w here fs')
      (w.doing here x fun taken w => if taken then parts.head n t w else next w) := by
  refine (Agrees.doing hx hd hstep fun taken v hv => ?_).fewer (Nat.le_succ n)
  cases taken with
  | true => exact htaken v hv
  | false => exact hnext v hv

/-- A block without further clauses is left as it is. -/
theorem last_refines {body : Body} {closing : Statement} (hstop : s.stopped = false)
    (hs : first.branches = true)
    (hb : BlockAt s.program place level first behind (.last body closing))
    (hlast : last = place + behind.length + (Parts.last body closing).size)
    (hr : fs.Room place (body.height + 1)) (hk : state.kind ≠ .try) (hd : w.depth = d) :
    s.Agrees n d (last + 1) fs (s.put w (place + 1 + behind.length + body.size)
      (fs.above ⟨place, last, d, state⟩)) (.done w) := by
  have hline : place + 1 + behind.length + body.size = last := by
    rw [hlast, Parts.size]
    omega
  rw [hline]
  exact ⟨hd, 1, leaves_closing hstop hs hb hlast (hr.above hk).noTry hd⟩

theorem room_next {body : Body} {dividing : Statement} {rest : Parts}
    (hr : fs.Room place ((Parts.clause body dividing rest).height + 1)) :
    fs.Room place (rest.height + 1) :=
  hr.mono (Nat.le_refl _) (Nat.succ_le_succ (Nat.le_max_right _ _))

/-- The branch after a clause that is taken. -/
theorem clause_refines {body : Body} {dividing : Statement} {rest : Parts}
    (hstop : s.stopped = false) (hs : first.branches = true)
    (hb : BlockAt s.program place level first behind (.clause body dividing rest))
    (hall : s.RefinesAll n d rest)
    (hlast : last = place + behind.length + (Parts.clause body dividing rest).size)
    (hm : state.isMade = true) (hk : first.blockKind? = some state.kind)
    (hr : fs.Room place ((Parts.clause body dividing rest).height + 1)) (hd : w.depth = d) :
    s.Agrees n d (last + 1) fs (s.put w (place + 1 + behind.length + body.size + 1)
      (fs.above ⟨place, last, d, state⟩))
      (rest.head n (place + 1 + behind.length + body.size + 1) w) := by
  rw [← hb.length_next]
  exact made_refines hstop hs hb.next hall (hlast.trans hb.last_next) hm hk (room_next hr) hd

/-- The clauses of an IF block that has not taken a branch yet. -/
theorem branch_refines (hstop : s.stopped = false) (hs : first.branches = true)
    (hk : first.blockKind? = some .if) : (parts : Parts) → {behind : List Line} → {w : World} →
    BlockAt s.program place level first behind parts → s.RefinesAll n d parts →
    last = place + behind.length + parts.size → fs.Room place (parts.height + 1) → w.depth = d →
    s.Agrees n d (last + 1) fs (s.put w (place + 1 + behind.length + parts.ahead.size)
      (fs.above ⟨place, last, d, .if false⟩)) (parts.branch n (place + 1 + behind.length) w)
  | .last body closing, behind, w, hb, hall, hlast, hr, hd => by
    rw [Parts.branch]
    exact last_refines hstop hs hb hlast hr (by simp [FrameState.kind]) hd
  | .clause body dividing rest, behind, w, hb, hall, hlast, hr, hd => by
    have hn := hb.nested
    simp only [Parts.nested, Bool.and_eq_true] at hn
    have hf : (fs.above ⟨place, last, d, .if false⟩).NoTry :=
      (hr.above (by simp [FrameState.kind])).noTry
    have hst := hb.lays_clause.statement
    cases dividing with
    | elseIf e =>
      rw [Parts.branch]
      refine .choice (Run.steady_condition e) hd
        ((decides_elseIf hb rfl hd).step hstop hst hf) (fun v hv => ?_) fun v hv => ?_
      · exact clause_refines hstop hs hb hall.2 hlast rfl hk hr hv
      · rw [← hb.length_next]
        exact branch_refines hstop hs hk rest hb.next hall.2 (hlast.trans hb.last_next)
          (room_next hr) hv
    | «else» =>
      have hstep := (decides_else hb rfl hd).step hstop hst hf
      rw [Parts.branch]
      · refine (Agrees.walk (.one hstep) ?_).fewer (Nat.le_succ n)
        exact clause_refines hstop hs hb hall.2 hlast rfl hk hr hd
      · simp
    | _ =>
      have hrole := (Statement.role_of_divides hn.1.2).2
      have hkind := (Statement.blockKind_of_divides hn.1.2).symm.trans hk
      first | (cases hrole; done) | cases hkind

/-- The CASEs of a block that has not matched yet. -/
theorem cases_refines {selector : Value} (hstop : s.stopped = false) (hs : first.branches = true)
    (hk : first.blockKind? = some .select) : (parts : Parts) → {behind : List Line} →
    {w : World} → BlockAt s.program place level first behind parts → s.RefinesAll n d parts →
    last = place + behind.length + parts.size → fs.Room place (parts.height + 1) → w.depth = d →
    s.Agrees n d (last + 1) fs (s.put w (place + 1 + behind.length + parts.ahead.size)
      (fs.above ⟨place, last, d, .select selector false⟩))
      (parts.cases n selector (place + 1 + behind.length) w)
  | .last body closing, behind, w, hb, hall, hlast, hr, hd => by
    rw [Parts.cases]
    exact last_refines hstop hs hb hlast hr (by simp [FrameState.kind]) hd
  | .clause body dividing rest, behind, w, hb, hall, hlast, hr, hd => by
    have hn := hb.nested
    simp only [Parts.nested, Bool.and_eq_true] at hn
    have hf : (fs.above ⟨place, last, d, .select selector false⟩).NoTry :=
      (hr.above (by simp [FrameState.kind])).noTry
    cases dividing with
    | case tests =>
      rw [Parts.cases]
      refine .choice (Run.steady_anyMatches selector tests) hd
        ((decides_case hb rfl hd).step hstop hb.lays_clause.statement hf) (fun v hv => ?_)
        fun v hv => ?_
      · exact clause_refines hstop hs hb hall.2 hlast rfl hk hr hv
      · rw [← hb.length_next]
        exact cases_refines hstop hs hk rest hb.next hall.2 (hlast.trans hb.last_next)
          (room_next hr) hv
    | _ =>
      have hrole := (Statement.role_of_divides hn.1.2).2
      have hkind := (Statement.blockKind_of_divides hn.1.2).symm.trans hk
      first | (cases hrole; done) | cases hkind

end Choices

/-! ## Loops -/

section Loops

variable {s : Session} {n d place level last : Nat} {first : Statement} {parts : Parts}
  {fs : Frames} {w : World} {state : FrameState}

/-- A loop has no clauses. -/
theorem parts_of_loop (hs : first.headsLoop = true) (hn : parts.nested first = true) :
    ∃ body closing, parts = .last body closing ∧ first.ends closing = true := by
  cases parts with
  | last body closing =>
    simp only [Parts.nested, Bool.and_eq_true] at hn
    exact ⟨body, closing, rfl, hn.2⟩
  | clause body dividing rest =>
    simp only [Parts.nested, Bool.and_eq_true] at hn
    have hd := hn.1.2
    unfold Statement.divides at hd
    split at hd <;> first | cases hs | cases hd

/-- A pass through the body of a loop ends at the last line. -/
theorem pass_refines {body : Body} {closing : Statement}
    (hb : BlockAt s.program place level first [] (.last body closing))
    (hall : s.Refines n d body) (hr : fs.Room place (body.height + 1)) (hk : state.kind ≠ .try)
    (hlast : last = place + (body.size + 1)) (w : World) (hd : w.depth = d) :
    s.Agrees n d last (fs.above ⟨place, last, d, state⟩)
      (s.put w (place + 1) (fs.above ⟨place, last, d, state⟩))
      ((Parts.last body closing).head n (place + 1) w) := by
  have hline : last = place + 1 + body.size := by omega
  rw [Parts.head]
  have hroom : (fs.above ⟨place, last, d, state⟩).Room (place + 1) body.height := hr.above hk
  have := hall (place + 1) (level + 1) _ w hb.lays_body hroom hd
  rwa [← hline] at this

/-- A loop that is tested at its first and its last line. -/
theorem loop_refines {ok ok' : Error → Prop} {x y : Run Bool} {wanted : Statement → Bool}
    {code : ErrorCode} {body : Body} {closing : Statement} (hstop : s.stopped = false)
    (hb : BlockAt s.program place level first [] (.last body closing))
    (hall : s.Refines n d body) (hr : fs.Room place (body.height + 1)) (hk : state.kind ≠ .try)
    (hx : Run.Steady ok x) (hy : Run.Steady ok' y)
    (hs : Run.execute first = loopHead wanted code x state.onlyIf) (hw : first.closedBy = wanted)
    (hlast : last = place + (body.size + 1))
    (hclosing : ∀ w : World, w.depth = d → Decides s.program closing w last
      (fs.above ⟨place, last, d, state⟩) (fs.above ⟨place, last, d, state⟩) y
      (fs.turning ⟨place, last, d, state⟩ last)) (hd : w.depth = d) :
    s.Agrees n d (last + 1) fs (s.put w place fs)
      (testedLoop n place last x y ((Parts.last body closing).head n (place + 1)) w) := by
  have hlaw := decides_loopHead hx hs hw hb (hr.place?_eq_none _) hr.length_lt hd
  rw [Parts.size, ← hlast] at hlaw
  have hst : s.program.statement? last = some closing := by
    have := hb.lays_closing.statement
    rwa [List.length_nil, show place + 1 + 0 + body.size = last by omega] at this
  unfold testedLoop
  refine (Agrees.doing hx hd (hlaw.step hstop hb.lines.statement hr.noTry)
    fun more v hv => ?_).fewer (Nat.le_succ n)
  cases more with
  | false => exact .done hv
  | true =>
    refine Agrees.passes (fun _ => fs.above ⟨place, last, d, state⟩)
      (fun _ => Run.steady_bind hy fun _ => Run.steady_pure _)
      (fun _ => pass_refines hb hall hr hk hlast) (fun _ w hw => ?_) () v hv
    exact ((hclosing w hw).map (f := fun again => (again, ())) fun _ => rfl).step hstop hst
      (hr.above hk).noTry

end Loops

/-! ## Blocks -/

section Blocks

variable {s : Session} {n d place level last : Nat} {first : Statement} {parts : Parts}
  {fs : Frames} {w : World}

theorem if_refines {e : Expression} (hstop : s.stopped = false)
    (hb : BlockAt s.program place level (.if e) [] parts) (hall : s.RefinesAll n d parts)
    (hr : fs.Room place (parts.height + 1)) (hd : w.depth = d) :
    s.Agrees n d (place + parts.size + 1) fs (s.put w place fs)
      (w.doing place (Run.condition e) fun taken w =>
        if taken then parts.head n (place + 1) w else parts.branch n (place + 1) w) := by
  have hlaw := decides_if (Or.inl ⟨rfl, rfl⟩) hb (hr.place?_eq_none _) hr.length_lt hd
  simp only [Bool.bne_false] at hlaw
  refine .choice (Run.steady_condition e) hd (hlaw.step hstop hb.lines.statement hr.noTry)
    (fun v hv => ?_) fun v hv => ?_
  · exact made_refines hstop rfl hb hall rfl rfl rfl hr hv
  · exact branch_refines hstop rfl rfl parts hb hall rfl hr hv

theorem unless_refines {e : Expression} (hstop : s.stopped = false)
    (hb : BlockAt s.program place level (.unless e) [] parts) (hall : s.RefinesAll n d parts)
    (hr : fs.Room place (parts.height + 1)) (hd : w.depth = d) :
    s.Agrees n d (place + parts.size + 1) fs (s.put w place fs)
      (w.doing place (Run.condition e) fun taken w =>
        if taken then parts.branch n (place + 1) w else parts.head n (place + 1) w) := by
  have hlaw := decides_if (Or.inr ⟨rfl, rfl⟩) hb (hr.place?_eq_none _) hr.length_lt hd
  refine (Agrees.doing (Run.steady_condition e) hd
    (hlaw.step hstop hb.lines.statement hr.noTry) fun taken v hv => ?_).fewer (Nat.le_succ n)
  cases taken with
  | true => exact branch_refines hstop rfl rfl parts hb hall rfl hr hv
  | false => exact made_refines hstop rfl hb hall rfl rfl rfl hr hv

theorem select_refines {e : Expression} (hstop : s.stopped = false)
    (hb : BlockAt s.program place level (.select e) [] parts) (hall : s.RefinesAll n d parts)
    (hr : fs.Room place (parts.height + 1)) (hd : w.depth = d) :
    s.Agrees n d (place + parts.size + 1) fs (s.put w place fs)
      (w.doing place (Run.value e) fun v => parts.cases n v (place + 1)) := by
  have hlaw := decides_select hb (hr.place?_eq_none _) hr.length_lt hd
  refine (Agrees.doing (Run.steady_value e) hd
    (hlaw.step hstop hb.lines.statement hr.noTry) fun selector v hv => ?_).fewer (Nat.le_succ n)
  exact cases_refines hstop rfl rfl parts hb hall rfl hr hv

theorem while_refines {e : Expression} (hstop : s.stopped = false)
    (hb : BlockAt s.program place level (.while e) [] parts) (hall : s.RefinesAll n d parts)
    (hr : fs.Room place (parts.height + 1)) (hd : w.depth = d) :
    s.Agrees n d (place + parts.size + 1) fs (s.put w place fs)
      (testedLoop n place (place + parts.size) (Run.condition e) (Run.condition e)
        (parts.head n (place + 1)) w) := by
  obtain ⟨body, closing, rfl, hends⟩ := parts_of_loop rfl hb.nested
  cases closing with
  | wend =>
    refine loop_refines hstop hb hall hr (by simp [FrameState.kind])
      (Run.steady_condition e) (Run.steady_condition e) (execute_while e) rfl rfl
      (fun v hv => ?_) hd
    exact decides_wend hb (by rw [Parts.size]; omega) rfl hv.symm
  | _ => cases hends

theorem until_refines {e : Expression} (hstop : s.stopped = false)
    (hb : BlockAt s.program place level (.until e) [] parts) (hall : s.RefinesAll n d parts)
    (hr : fs.Room place (parts.height + 1)) (hd : w.depth = d) :
    s.Agrees n d (place + parts.size + 1) fs (s.put w place fs)
      (testedLoop n place (place + parts.size) (Run.untilTest e) (Run.untilTest e)
        (parts.head n (place + 1)) w) := by
  obtain ⟨body, closing, rfl, hends⟩ := parts_of_loop rfl hb.nested
  cases closing with
  | uend =>
    refine loop_refines hstop hb hall hr (by simp [FrameState.kind])
      (steady_untilTest e) (steady_untilTest e) (execute_until e) rfl rfl (fun v hv => ?_) hd
    exact decides_uend hb (by rw [Parts.size]; omega) rfl hv.symm
  | _ => cases hends

theorem do_refines {c : Condition} (hstop : s.stopped = false)
    (hb : BlockAt s.program place level (.do c) [] parts) (hall : s.RefinesAll n d parts)
    (hr : fs.Room place (parts.height + 1)) (hd : w.depth = d) :
    s.Agrees n d (place + parts.size + 1) fs (s.put w place fs)
      (testedLoop n place (place + parts.size) (Run.test c)
        (Run.bothHold parts.closing.loopTest c) (parts.head n (place + 1)) w) := by
  obtain ⟨body, closing, rfl, hends⟩ := parts_of_loop rfl hb.nested
  cases closing with
  | loop tail =>
    refine loop_refines hstop hb hall hr (by simp [FrameState.kind])
      (Run.steady_test c) (steady_bothHold tail c) (execute_do c) rfl rfl (fun v hv => ?_) hd
    exact decides_loop hb (by rw [Parts.size]; omega) rfl hv.symm
  | _ => cases hends

theorem for_refines {name : Name} {start limit : Expression} {step : Option Expression}
    (hstop : s.stopped = false)
    (hb : BlockAt s.program place level (.for name start limit step) [] parts)
    (hall : s.RefinesAll n d parts) (hr : fs.Room place (parts.height + 1)) (hd : w.depth = d) :
    s.Agrees n d (place + parts.size + 1) fs (s.put w place fs)
      (w.doing place (Run.forEntry name start limit step) fun loop w =>
        match loop with
        | some loop =>
          passes (parts.head n (place + 1)) (place + parts.size) Run.counting n loop w
        | none => .done w) := by
  have hx := steady_forEntry name start limit step
  have hlaw := decides_loopHead hx (execute_for name start limit step) rfl hb
    (hr.place?_eq_none _) hr.length_lt hd
  obtain ⟨body, closing, rfl, hends⟩ := parts_of_loop rfl hb.nested
  obtain ⟨other, rfl⟩ : ∃ other, closing = .next other := by
    cases closing with
    | next other => exact ⟨other, rfl⟩
    | _ => cases hends
  refine (Agrees.doing hx hd (hlaw.step hstop hb.lines.statement hr.noTry)
    fun loop v hv => ?_).fewer (Nat.le_succ n)
  cases loop with
  | none => exact .done hv
  | some loop =>
    have hline : place + (Parts.last body (.next other)).size = place + 1 + body.size := by
      rw [Parts.size]
      omega
    refine Agrees.passes
      (fun loop => fs.above ⟨place, place + (Parts.last body (.next other)).size, d, .for loop⟩)
      steady_counting (fun loop => pass_refines hb hall hr (by simp [FrameState.kind]) rfl)
      (fun loop w hw => ?_) loop v hv
    refine (decides_next hb hline hw).step hstop ?_ (hr.above (by simp [FrameState.kind])).noTry
    rw [hline]
    exact hb.lays_closing.statement

/-- Every block that chooses or repeats. -/
theorem block_refines (hstop : s.stopped = false) (hs : first.structures = true)
    (hb : BlockAt s.program place level first [] parts) (hall : s.RefinesAll n d parts)
    (hr : fs.Room place (parts.height + 1)) (hd : w.depth = d) :
    s.Agrees n d (place + parts.size + 1) fs (s.put w place fs)
      (runBlock n place (place + parts.size) first parts.closing (parts.head n (place + 1))
        (parts.branch n (place + 1)) (fun v => parts.cases n v (place + 1)) w) := by
  cases first with
  | «if» e => exact if_refines hstop hb hall hr hd
  | «unless» e => exact unless_refines hstop hb hall hr hd
  | «while» e => exact while_refines hstop hb hall hr hd
  | «until» e => exact until_refines hstop hb hall hr hd
  | «do» c => exact do_refines hstop hb hall hr hd
  | «for» name start limit step => exact for_refines hstop hb hall hr hd
  | select e => exact select_refines hstop hb hall hr hd
  | _ => cases hs

end Blocks

end Session

/-! ## Programs -/

section Programs

variable {s : Session} (n d : Nat)

mutual

/-- Stepping through a body agrees with its run. -/
theorem Body.refines (hstop : s.stopped = false) : (b : Body) → b.nested = true →
    b.structured = true → s.Refines n d b
  | .nil, _, _ => by
    intro place level fs w hl hr hd
    rw [Body.run]
    exact .done hd
  | .line st rest, hn, hs => by
    intro place level fs w hl hr hd
    simp only [Body.nested, Bool.and_eq_true] at hn
    simp only [Body.structured, Bool.and_eq_true] at hs
    rw [Body.run, Body.size, Nat.add_comm rest.size 1, ← Nat.add_assoc]
    refine .line hs.1 hstop hl.statement hr.noTry hd fun v hv => ?_
    exact rest.refines hstop hn.2 hs.2 (place + 1) level fs v hl.tail
      (hr.mono (Nat.le_succ place) (Nat.le_refl _)) hv
  | .block first parts rest, hn, hs => by
    intro place level fs w hl hr hd
    simp only [Body.nested, Bool.and_eq_true] at hn
    simp only [Body.structured, Bool.and_eq_true] at hs
    have hlines : s.program.Lays place
        ((⟨level, first⟩ :: parts.laid level) ++ rest.laid level) := hl
    have hb : BlockAt s.program place level first [] parts :=
      ⟨hlines.left, fun _ h => (by cases h), hn.1⟩
    have hall := parts.refines hstop hn.1 hs.1.2
    have hsize : place + (Body.block first parts rest).size =
        place + parts.size + 1 + rest.size := by
      rw [Body.size]
      omega
    rw [Body.run, hsize]
    refine (Session.block_refines hstop hs.1.1 hb hall
      (hr.mono (Nat.le_refl _) (Nat.le_max_left _ _)) hd).andThen fun v hv => ?_
    have hrest := hlines.right
    rw [List.length_cons, parts.length_laid, ← Nat.add_assoc] at hrest
    exact rest.refines hstop hn.2 hs.2 _ level fs v hrest
      (hr.mono (by omega) (Nat.le_max_right _ _)) hv

theorem Parts.refines (hstop : s.stopped = false) : (parts : Parts) → {first : Statement} →
    parts.nested first = true → parts.structured = true → s.RefinesAll n d parts
  | .last body closing, first, hn, hs => by
    simp only [Parts.nested, Bool.and_eq_true] at hn
    exact body.refines hstop hn.1 hs
  | .clause body dividing rest, first, hn, hs => by
    simp only [Parts.nested, Bool.and_eq_true] at hn
    simp only [Parts.structured, Bool.and_eq_true] at hs
    exact ⟨body.refines hstop hn.1.1 hs.1, rest.refines hstop hn.2 hs.2⟩

end

end Programs

namespace Session

end Session

end LineBasic
