-- A statement in capitals does what the statement does. Every statement is made
-- of parts for which this holds: expressions, look-ups by key, searches for lines
-- of blocks, and changes of the state that do not ask how a name is spelled.
import LineBasic.Proofs.Twins

namespace LineBasic

/-! ## Parts of the state -/

namespace FrameState

variable {a b : FrameState}

/-- Blocks that are alike are the same, or FOR loops or TRY blocks. -/
theorem cases_of_folded (h : a.folded = b.folded) : a = b ∨
    (∃ l m : ForLoop, a = .for l ∧ b = .for m ∧ l.folded = m.folded) ∨
    ∃ t u : TryBlock, a = .try t ∧ b = .try u ∧ t.unworded = u.unworded := by
  cases a <;> cases b <;> simp only [folded, reduceCtorEq] at h
  case «for».for l m => exact Or.inr (Or.inl ⟨l, m, rfl, rfl, FrameState.for.inj h⟩)
  case «try».try t u => exact Or.inr (Or.inr ⟨t, u, rfl, rfl, FrameState.try.inj h⟩)
  all_goals first | exact Or.inl rfl | exact Or.inl h

theorem try_or_not (h : a.folded = b.folded) :
    (∃ t u : TryBlock, a = .try t ∧ b = .try u ∧ t.unworded = u.unworded) ∨
      (∀ t, a ≠ .try t) ∧ ∀ u, b ≠ .try u := by
  rcases cases_of_folded h with rfl | ⟨l, m, rfl, rfl, _⟩ | htry
  · cases a with
    | «try» t => exact Or.inl ⟨t, t, rfl, rfl, rfl⟩
    | _ => exact Or.inr ⟨by simp, by simp⟩
  · exact Or.inr ⟨by simp, by simp⟩
  · exact Or.inl htry

end FrameState

theorem Frame.alike_iff {f g : Frame} : f.folded = g.folded ↔
    f.first = g.first ∧ f.last = g.last ∧ f.depth = g.depth ∧ f.state.folded = g.state.folded := by
  simp [folded]

namespace Memory

variable {m n : Memory} {a b : Name}

theorem Alike.set (h : m.Alike n) (hn : a.key = b.key) (v : Value) (here : Bool) :
    PairedExcept Alike (m.set a v here) (n.set b v here) := by
  unfold Memory.set
  rw [fitTo_eq hn]
  refine (pairedExcept_refl _).bind fun w => ?_
  exact ⟨Variables.put_eq h.variables hn w here, h.random, h.line, h.keyboard⟩

/-- The cells of two names are one cell with one value. -/
theorem Alike.slot (h : m.Alike n) (hn : a.key = b.key) :
    (m.slot a).1 = (n.slot b).1 ∧ (m.slot a).2.1 = (n.slot b).2.1 ∧
      (m.slot a).2.2.Alike (n.slot b).2.2 := by
  obtain ⟨hcell, hv, hvars⟩ := Variables.slot_eq h.variables hn
  exact ⟨hcell, hv, hvars, h.random, h.line, h.keyboard⟩

theorem Alike.store (h : m.Alike n) (c : Cell) (v : Value) : (m.store c v).Alike (n.store c v) :=
  ⟨Variables.store_eq h.variables v c, h.random, h.line, h.keyboard⟩

end Memory

theorem Value.withMember_key (new : Value) (path : List Name) (v : Value) :
    Value.withMember new (path.map Name.key) v = Value.withMember new path v := by
  induction path generalizing v with
  | nil => rfl
  | cons field rest ih =>
    cases v with
    | record members =>
      cases rest with
      | nil => simp [Value.withMember]
      | cons next rest =>
        simp only [List.map_cons, Value.withMember, Name.key_key] at ih ⊢
        rw [ih]
    | integer | real | string | complex | array => cases rest <;> rfl

namespace Run

variable {α β : Type} {timed : Bool} {R : α → α → Prop}

/-- The second computation does what the first does. -/
abbrev Follows (timed : Bool) (R : α → α → Prop) (x y : Run α) : Prop :=
  Twin (Program.Echoes timed) (State.Alike timed) R x y

/-! ## Parts of statements -/

theorem follows_ofExcept {x y : Except Error α} (h : PairedExcept R x y) :
    Follows timed R (ofExcept x) (ofExcept y) := by
  cases x <;> cases y
  · exact twin_throw h
  · exact h.elim
  · exact h.elim
  · exact twin_pure h

theorem follows_same (x : Except Error α) : Follows timed Eq (ofExcept x) (ofExcept x) :=
  follows_ofExcept (pairedExcept_refl x)

theorem follows_require (o : Option α) {e f : Error} (h : e.unworded = f.unworded) :
    Follows timed Eq (require o e) (require o f) := by
  cases o with
  | some a => exact twin_pure rfl
  | none => exact twin_throw h

theorem follows_mapM {f g : β → Run α} {k : β → β} {l : List β}
    (h : ∀ b ∈ l, Follows timed Eq (f b) (g (k b))) :
    Follows timed Eq (l.mapM f) ((l.map k).mapM g) := by
  induction l with
  | nil => exact twin_pure rfl
  | cons b rest ih =>
    obtain ⟨hb, hrest⟩ := List.forall_mem_cons.1 h
    rw [List.map_cons, List.mapM_cons, List.mapM_cons]
    exact twin_seq hb fun _ => twin_seq (ih hrest) fun _ => twin_pure rfl

theorem follows_forM {f g : β → Run PUnit} {k : β → β} {l : List β}
    (h : ∀ b ∈ l, Follows timed Eq (f b) (g (k b))) :
    Follows timed Eq (l.forM f) ((l.map k).forM g) := by
  induction l with
  | nil => exact twin_pure rfl
  | cons b rest ih =>
    obtain ⟨hb, hrest⟩ := List.forall_mem_cons.1 h
    exact twin_seq hb fun _ => ih hrest

/-! ### Expressions -/

theorem follows_observe {x y : Eval α} (h : Eval.Follows timed R x y) :
    Follows timed R (observe x) (observe y) := by
  intro p q s t _ hs
  have hpair := h s.view t.view s.memory.trail t.memory.trail hs.view hs.memory.random
  unfold observe State.observe
  have hnext : ∀ u v : Trail, u.random = v.random →
      (s.withTrail u).Alike timed (t.withTrail v) := fun u v huv =>
    ⟨⟨hs.memory.variables, huv, hs.memory.line, hs.memory.keyboard⟩, hs.frames, hs.host⟩
  cases hx : x s.view s.memory.trail <;> cases hy : y t.view t.memory.trail <;> rw [hx, hy] at hpair
  · exact ⟨hpair.1, hnext _ _ hpair.2⟩
  · exact hpair.elim
  · exact hpair.elim
  · exact ⟨hpair.1, hnext _ _ hpair.2⟩

variable {e : Expression}

theorem follows_value (h : Timely timed e) : Follows timed Eq (value e) (value e.folded) :=
  follows_observe (Eval.follows_evaluate e h)

theorem follows_integer (h : Timely timed e) : Follows timed Eq (integer e) (integer e.folded) :=
  twin_seq (follows_value h) fun _ => follows_same _

theorem follows_real (h : Timely timed e) : Follows timed Eq (real e) (real e.folded) :=
  twin_seq (follows_value h) fun _ => follows_same _

theorem follows_count (h : Timely timed e) : Follows timed Eq (count e) (count e.folded) :=
  twin_seq (follows_value h) fun _ => follows_same _

theorem follows_text (h : Timely timed e) : Follows timed Eq (text e) (text e.folded) :=
  twin_seq (follows_value h) fun _ => follows_same _

theorem follows_condition (h : Timely timed e) :
    Follows timed Eq (condition e) (condition e.folded) := by
  refine twin_seq (follows_value h) fun v => ?_
  cases v with
  | integer n => exact twin_pure rfl
  | real | string | complex | array | record => exact twin_throw rfl

theorem follows_test (c : Condition) (h : ∀ e ∈ c.expressions, Timely timed e) :
    Follows timed Eq (test c) (test c.folded) := by
  cases c with
  | always => exact twin_pure rfl
  | «while» e => exact follows_condition (h e List.mem_cons_self)
  | «until» e =>
    exact twin_seq (follows_condition (h e List.mem_cons_self)) fun _ => twin_pure rfl

/-! ### The state -/

theorem follows_read : Follows timed (Program.Echoes timed) read read :=
  fun _ _ _ _ hp hs => ⟨hp, hs⟩

theorem follows_memory : Follows timed Memory.Alike memory memory :=
  fun _ _ _ _ _ hs => ⟨hs.memory, hs⟩

theorem follows_line : Follows timed Eq line line := fun _ _ _ _ _ hs => ⟨hs.memory.line, hs⟩

theorem follows_depth : Follows timed Eq depth depth :=
  fun _ _ _ _ _ hs => ⟨Variables.depth_eq hs.memory.variables, hs⟩

theorem follows_frames : Follows timed (fun fs gs => fs.folded = gs.folded) frames frames :=
  fun _ _ _ _ _ hs => ⟨hs.frames, hs⟩

theorem follows_host : Follows timed (Host.Alike timed) host host :=
  fun _ _ _ _ _ hs => ⟨hs.host, hs⟩

theorem follows_setMemory {m n : Memory} (h : m.Alike n) :
    Follows timed Eq (setMemory m) (setMemory n) :=
  fun _ _ _ _ _ hs => ⟨rfl, h, hs.frames, hs.host⟩

theorem follows_setFrames {fs gs : Frames} (h : fs.folded = gs.folded) :
    Follows timed Eq (setFrames fs) (setFrames gs) :=
  fun _ _ _ _ _ hs => ⟨rfl, hs.memory, h, hs.host⟩

theorem follows_onScreen (f : Screen → Screen) : Follows timed Eq (onScreen f) (onScreen f) :=
  fun _ _ _ _ _ hs => ⟨rfl, hs.memory, hs.frames, congrArg f hs.host.screen, hs.host.sound,
    hs.host.files, hs.host.views, hs.host.clock⟩

theorem follows_record (request : SoundRequest) :
    Follows timed Eq (onHost (·.record request)) (onHost (·.record request)) :=
  fun _ _ _ _ _ hs => ⟨rfl, hs.memory, hs.frames, hs.host.screen,
    congrArg (· ++ [request]) hs.host.sound, hs.host.files, hs.host.views, hs.host.clock⟩

theorem follows_requestView (target : String) :
    Follows timed Eq (onHost (·.requestView target)) (onHost (·.requestView target)) :=
  fun _ _ _ _ _ hs => ⟨rfl, hs.memory, hs.frames, hs.host.screen, hs.host.sound, hs.host.files,
    congrArg (Option.map (· ++ [target])) hs.host.views, hs.host.clock⟩

theorem follows_setFiles (files : Files) : Follows timed Eq (setFiles files) (setFiles files) :=
  fun _ _ _ _ _ hs => ⟨rfl, hs.memory, hs.frames, hs.host.screen, hs.host.sound, rfl, hs.host.views,
    hs.host.clock⟩

/-! ### Variables -/

variable {a b : Name}

theorem follows_store (h : a.key = b.key) (v : Value) :
    Follows timed Eq (store a v) (store b v) := by
  refine twin_bind follows_memory fun m n hm => ?_
  rw [Variables.hasLocal_eq hm.variables h]
  exact twin_bind (follows_ofExcept (hm.set h v _)) fun _ _ hset => follows_setMemory hset

theorem follows_storeLocal (h : a.key = b.key) (v : Value) :
    Follows timed Eq (storeLocal a v) (storeLocal b v) :=
  twin_bind follows_memory fun _ _ hm =>
    twin_bind (follows_ofExcept (hm.set h v true)) fun _ _ hset => follows_setMemory hset

theorem follows_update (h : a.key = b.key) (change : Value → Except Error (α × Value)) :
    Follows timed Eq (update a change) (update b change) := by
  refine twin_bind follows_memory fun m n hm => ?_
  obtain ⟨hcell, hv, hmem⟩ := hm.slot h
  generalize m.slot a = r at hcell hv hmem
  generalize n.slot b = r' at hcell hv hmem
  obtain ⟨cell, v, m'⟩ := r
  obtain ⟨cell', v', n'⟩ := r'
  dsimp only at hcell hv hmem ⊢
  subst hcell hv
  refine twin_seq (follows_setMemory hmem) fun _ => ?_
  rw [Variables.isLive_eq hmem.variables]
  refine twin_ite ?_ (twin_throw rfl)
  exact twin_seq (follows_same _) fun x => twin_seq (follows_setMemory (hmem.store _ _)) fun _ =>
    twin_pure rfl

theorem follows_updateArray (h : a.key = b.key)
    (change : Grid Value → Except Error (α × Grid Value)) :
    Follows timed Eq (updateArray a change) (updateArray b change) :=
  follows_update (by simp [h]) _

theorem follows_assign (target : Location) (v : Value) (h : ∀ e ∈ target.indexes, Timely timed e) :
    Follows timed Eq (assign target v) (assign target.folded v) := by
  cases target with
  | «variable» name => exact follows_store name.key_key.symm v
  | element name indexes =>
    exact twin_seq (follows_observe (Eval.follows_indexes h)) fun is =>
      follows_updateArray (by simp) _
  | member name path =>
    simp only [assign, Location.folded, Value.withMember_key]
    exact follows_update name.key_key.symm _

/-! ### The program -/

/-- A test of statements that does not ask how names are spelled. -/
def Blind (wanted : Statement → Bool) : Prop := ∀ st, wanted st.folded = wanted st

theorem blind_opensIf : Blind Statement.opensIf := fun st => by cases st <;> rfl
theorem blind_opensIfOrUnless : Blind Statement.opensIfOrUnless := fun st => by cases st <;> rfl
theorem blind_closesIf : Blind Statement.closesIf := fun st => by cases st <;> rfl
theorem blind_endsIfBranch : Blind Statement.endsIfBranch := fun st => by cases st <;> rfl
theorem blind_opensWhile : Blind Statement.opensWhile := fun st => by cases st <;> rfl
theorem blind_closesWhile : Blind Statement.closesWhile := fun st => by cases st <;> rfl
theorem blind_opensDo : Blind Statement.opensDo := fun st => by cases st <;> rfl
theorem blind_closesDo : Blind Statement.closesDo := fun st => by cases st <;> rfl
theorem blind_opensFor : Blind Statement.opensFor := fun st => by cases st <;> rfl
theorem blind_opensSelect : Blind Statement.opensSelect := fun st => by cases st <;> rfl
theorem blind_closesSelect : Blind Statement.closesSelect := fun st => by cases st <;> rfl
theorem blind_endsCase : Blind Statement.endsCase := fun st => by cases st <;> rfl
theorem blind_opensTry : Blind Statement.opensTry := fun st => by cases st <;> rfl
theorem blind_closesTry : Blind Statement.closesTry := fun st => by cases st <;> rfl
theorem blind_isCatch : Blind Statement.isCatch := fun st => by cases st <;> rfl
theorem blind_isFinally : Blind Statement.isFinally := fun st => by cases st <;> rfl
theorem blind_closesSub : Blind Statement.closesSub := fun st => by cases st <;> rfl

theorem closesFor_folded (name : Name) (st : Statement) :
    Statement.closesFor name.key st.folded = Statement.closesFor name st := by
  cases st with
  | next other => cases other <;> simp [Statement.closesFor, Statement.folded, Name.alike]
  | _ => rfl

section Search

variable {wanted wanted' : Statement → Bool} (hw : ∀ st, wanted' st.folded = wanted st)

include hw

theorem follows_closer (start : Nat) :
    Follows timed Eq (closer start wanted) (closer start wanted') :=
  fun _ _ _ _ hp hs => ⟨(hp.closer hw start).symm, hs⟩

theorem follows_opener (place : Nat) :
    Follows timed Eq (opener place wanted) (opener place wanted') :=
  fun _ _ _ _ hp hs => ⟨(hp.opener hw place).symm, hs⟩

/-- The end of a block, which has to be there. -/
theorem follows_endOf (line : Nat) (e : Error) :
    Follows timed Eq (do require (← closer line wanted) e) (do require (← closer line wanted') e) :=
  twin_seq (follows_closer hw line) fun _ => follows_require _ rfl

theorem follows_clauseOr (stop line : Nat) :
    Follows timed Eq (clauseOr stop line wanted) (clauseOr stop line wanted') :=
  twin_seq (follows_closer hw line) fun _ => twin_pure rfl

end Search

/-- A line of the program, and the same line in capitals. -/
theorem follows_statement (l : Nat) :
    Follows timed (fun st st' => st' = st.folded ∧ (st.readsClock = true → timed = true))
      (statement l) (statement l) := by
  refine twin_bind follows_read fun p q hp => ?_
  rw [hp.statement? l]
  cases hst : p.statement? l with
  | none => exact twin_throw rfl
  | some st => exact twin_pure ⟨rfl, hp.readsClock hst⟩

/-! ### Blocks -/

theorem follows_enter (first last : Nat) {state state' : FrameState}
    (h : state.folded = state'.folded) :
    Follows timed Eq (enter first last state) (enter first last state') := by
  refine twin_bind follows_frames fun fs gs hfs => twin_seq follows_depth fun depth => ?_
  have henter : (fs.enter ⟨first, last, depth, state⟩).map Frames.folded =
      (gs.enter ⟨first, last, depth, state'⟩).map Frames.folded := by
    have hframe : Frame.folded ⟨first, last, depth, state⟩ =
        Frame.folded ⟨first, last, depth, state'⟩ := Frame.alike_iff.2 ⟨rfl, rfl, rfl, h⟩
    rw [← Frames.enter_folded, ← Frames.enter_folded, hfs, hframe]
  exact twin_bind (follows_ofExcept (pairedExcept_of_map _ henter)) fun _ _ hset =>
    follows_setFrames hset

theorem follows_framePlace (first : Nat) :
    Follows timed Eq (framePlace? first) (framePlace? first) := by
  refine twin_bind follows_frames fun fs gs hfs => twin_seq follows_depth fun depth => ?_
  rw [← Frames.place?_folded, hfs, Frames.place?_folded]
  exact twin_pure rfl

theorem follows_leave (first : Nat) : Follows timed Eq (leave first) (leave first) := by
  refine twin_bind follows_frames fun fs gs hfs => twin_seq follows_depth fun depth => ?_
  refine follows_setFrames ?_
  rw [Frames.leave_folded, hfs, Frames.leave_folded]

theorem truncate_eq {fs gs : Frames} (h : fs.folded = gs.folded) (size : Nat) :
    Frames.folded (fs.truncate size) = Frames.folded (gs.truncate size) := by
  unfold Frames.folded at *
  rw [Stack.mapItems_truncate, h, Stack.mapItems_truncate]

theorem modify_eq {fs gs : Frames} (h : fs.folded = gs.folded) (place : Nat)
    {state state' : FrameState} (hs : state.folded = state'.folded) :
    Frames.folded (fs.modify place fun f => { f with state }) =
      Frames.folded (gs.modify place fun f => { f with state := state' }) := by
  have hleft := Stack.mapItems_modify fs Frame.folded place (g := fun f => { f with state })
    (h := fun f => { f with state := state.folded }) fun _ => rfl
  have hright := Stack.mapItems_modify gs Frame.folded place
    (g := fun f => { f with state := state' }) (h := fun f => { f with state := state'.folded })
    fun _ => rfl
  unfold Frames.folded at *
  rw [hleft, hright, h, hs]

theorem follows_truncate (size : Nat) : Follows timed Eq (truncate size) (truncate size) :=
  twin_bind follows_frames fun _ _ hfs => follows_setFrames (truncate_eq hfs size)

theorem follows_setFrameState (place : Nat) {state state' : FrameState}
    (h : state.folded = state'.folded) :
    Follows timed Eq (setFrameState place state) (setFrameState place state') :=
  twin_bind follows_frames fun _ _ hfs => follows_setFrames (modify_eq hfs place h)

theorem get?_eq {fs gs : Frames} (h : fs.folded = gs.folded) (i : Nat) :
    (fs.get? i).map Frame.folded = (gs.get? i).map Frame.folded := by
  rw [← Stack.mapItems_get?, ← Stack.mapItems_get?]
  exact congrArg (Stack.get? · i) h

/-- The frame at a place, which has to be there. -/
theorem follows_frame {fs gs : Frames} (h : fs.folded = gs.folded) (i : Nat) (e : Error) :
    Follows timed (fun f g => f.folded = g.folded) (require (fs.get? i) e)
      (require (gs.get? i) e) := by
  have hget := get?_eq h i
  cases hf : fs.get? i <;> cases hg : gs.get? i <;> rw [hf, hg] at hget
  · exact twin_throw rfl
  · cases hget
  · cases hget
  · exact twin_pure (Option.some.inj hget)

/-! ## Statements that store -/

theorem follows_local (name : Name) (initial : Option Expression)
    (h : ∀ e ∈ initial.toList, Timely timed e) :
    Follows timed Eq (localStatement name initial)
      (localStatement name.key (initial.map Expression.folded)) := by
  have hlast : ∀ v, Follows timed Eq (do storeLocal name v; return Flow.next)
      (do storeLocal name.key v; return Flow.next) :=
    fun v => twin_seq (follows_storeLocal name.key_key.symm v) fun _ => twin_pure rfl
  cases initial with
  | some e => exact twin_seq (follows_value (h e (by simp))) hlast
  | none =>
    unfold localStatement
    rw [Option.map_none, Value.defaultFor_key]
    exact twin_seq (twin_pure rfl) hlast

theorem follows_axisBounds (a : AxisRange) (h : ∀ e ∈ a.expressions, Timely timed e) :
    Follows timed Eq (axisBounds a) (axisBounds a.folded) := by
  have hlast : ∀ r : Int64 × Int, Follows timed Eq (do
      if r.2 < 0 then throw Error.negativeArraySize else return (r.1, r.2.toNat) : Run _)
      (do if r.2 < 0 then throw Error.negativeArraySize else return (r.1, r.2.toNat) : Run _) :=
    fun r => twin_ite (twin_throw rfl) (twin_pure rfl)
  obtain ⟨lower, upper⟩ := a
  refine twin_seq (follows_integer (h upper List.mem_cons_self)) fun n => ?_
  cases lower with
  | some e =>
    refine twin_seq (follows_integer (h e (by simp [AxisRange.expressions]))) fun m => ?_
    exact twin_ite (twin_seq (twin_pure rfl) hlast) (twin_seq (twin_throw rfl) hlast)
  | none => exact twin_seq (twin_pure rfl) hlast

theorem follows_dim (name : Name) (axes : List AxisRange)
    (h : ∀ e ∈ axes.flatMap AxisRange.expressions, Timely timed e) :
    Follows timed Eq (dimStatement name axes)
      (dimStatement name.key (axes.map AxisRange.folded)) := by
  have haxes : ∀ a ∈ axes, Follows timed Eq (axisBounds a) (axisBounds a.folded) :=
    fun a ha => follows_axisBounds a fun e he => h e (List.mem_flatMap.2 ⟨a, ha, he⟩)
  unfold dimStatement
  refine twin_seq (follows_mapM haxes) fun bounds => ?_
  dsimp only
  rw [List.length_map, ← Name.key_ofArray, Name.ofName_key]
  exact twin_seq (follows_same _) fun _ =>
    twin_seq (follows_store (Name.key_key _).symm _) fun _ => twin_pure rfl

theorem follows_swap (a b : Location) (h : ∀ e ∈ a.indexes ++ b.indexes, Timely timed e) :
    Follows timed Eq (swapStatement a b) (swapStatement a.folded b.folded) := by
  obtain ⟨ha, hb⟩ := List.forall_mem_append.1 h
  refine twin_seq (follows_observe (Eval.follows_read a ha)) fun v => ?_
  refine twin_seq (follows_observe (Eval.follows_read b hb)) fun w => twin_ite (twin_throw rfl) ?_
  exact twin_seq (follows_assign a w ha) fun _ => twin_seq (follows_assign b v hb) fun _ =>
    twin_pure rfl

/-- PUSH and UNSHIFT. -/
theorem follows_add (name : Name) (h : Timely timed e)
    (change : Value → Grid Value → Except Error (Unit × Grid Value)) :
    Follows timed Eq (do updateArray name (change (← value e)); return Flow.next)
      (do updateArray name.key (change (← value e.folded)); return Flow.next) :=
  twin_seq (follows_value h) fun _ => twin_seq (follows_updateArray name.key_key.symm _) fun _ =>
    twin_pure rfl

/-- POP and SHIFT. -/
theorem follows_take (name : Name) (target : Location) (h : ∀ e ∈ target.indexes, Timely timed e)
    (change : Grid Value → Except Error (Value × Grid Value)) :
    Follows timed Eq (do assign target (← updateArray name change); return Flow.next)
      (do assign target.folded (← updateArray name.key change); return Flow.next) :=
  twin_seq (follows_updateArray name.key_key.symm _) fun v =>
    twin_seq (follows_assign target v h) fun _ => twin_pure rfl

/-! ## Branches -/

theorem follows_if (h : Timely timed e) (negated : Bool) :
    Follows timed Eq (ifStatement e negated) (ifStatement e.folded negated) := by
  refine twin_seq follows_line fun here => ?_
  refine twin_seq (follows_endOf blind_closesIf _ _) fun stop => ?_
  refine twin_seq (follows_condition h) fun taken => twin_seq (follows_enter _ _ rfl) fun _ => ?_
  exact twin_ite (twin_pure rfl) (follows_clauseOr blind_endsIfBranch _ _)

/-- Two IF blocks that are alike. -/
def IfBlock.Alike : IfBlock → IfBlock → Prop
  | .active i f, .active j g => i = j ∧ f.last = g.last ∧ branchTaken f.state = branchTaken g.state
  | .skipped a, .skipped b => a = b
  | _, _ => False

theorem follows_ifBlock (first : Nat) :
    Follows timed IfBlock.Alike (ifBlock first) (ifBlock first) := by
  refine twin_seq (follows_framePlace first) fun place => ?_
  cases place with
  | some i =>
    refine twin_bind follows_frames fun fs gs hfs => ?_
    refine twin_bind (follows_frame hfs i _) fun f g hf => twin_pure ?_
    obtain ⟨_, hlast, _, hstate⟩ := Frame.alike_iff.1 hf
    refine ⟨rfl, hlast, ?_⟩
    rcases FrameState.cases_of_folded hstate with hsame | ⟨_, _, ha, hb, _⟩ | ⟨_, _, ha, hb, _⟩
    · rw [hsame]
    · rw [ha, hb]; rfl
    · rw [ha, hb]; rfl
  | none =>
    exact twin_seq (follows_endOf blind_closesIf _ _) fun _ => twin_pure (R := IfBlock.Alike) rfl

theorem follows_elseIf (h : Timely timed e) :
    Follows timed Eq (elseIfStatement e) (elseIfStatement e.folded) := by
  refine twin_seq follows_line fun here => twin_seq (follows_opener blind_opensIf _) fun _ => ?_
  refine twin_seq (follows_require _ rfl) fun first => ?_
  refine twin_bind (follows_ifBlock first) fun block block' hblock => ?_
  cases block <;> cases block'
  · obtain ⟨rfl, hlast, htaken⟩ := hblock
    dsimp only
    rw [hlast, htaken]
    refine twin_ite (twin_pure rfl) (twin_seq (follows_condition h) fun holds => ?_)
    refine twin_ite ?_ (follows_clauseOr blind_endsIfBranch _ _)
    exact twin_seq (follows_setFrameState _ rfl) fun _ => twin_pure rfl
  · exact hblock.elim
  · exact hblock.elim
  · cases hblock
    exact twin_pure rfl

theorem follows_else : Follows timed Eq elseStatement elseStatement := by
  refine twin_seq follows_line fun here => ?_
  refine twin_seq (follows_opener blind_opensIfOrUnless _) fun _ => ?_
  refine twin_seq (follows_require _ rfl) fun first => ?_
  refine twin_bind (follows_ifBlock first) fun block block' hblock => ?_
  cases block <;> cases block'
  · obtain ⟨rfl, hlast, htaken⟩ := hblock
    dsimp only
    rw [hlast, htaken]
    refine twin_ite (twin_pure rfl) ?_
    exact twin_seq (follows_setFrameState _ rfl) fun _ => twin_pure rfl
  · exact hblock.elim
  · exact hblock.elim
  · cases hblock
    exact twin_pure rfl

/-- END IF and END SELECT. -/
theorem follows_leaveBlock {wanted : Statement → Bool} (hw : Blind wanted) :
    Follows timed Eq (do
      match ← opener (← line) wanted with
      | some first => leave first
      | none => pure ()
      return Flow.next)
    (do
      match ← opener (← line) wanted with
      | some first => leave first
      | none => pure ()
      return Flow.next) := by
  refine twin_seq follows_line fun _ => twin_seq (follows_opener hw _) fun found => ?_
  cases found with
  | some first => exact twin_seq (follows_leave first) fun _ => twin_pure rfl
  | none => exact twin_pure rfl

theorem follows_select (h : Timely timed e) :
    Follows timed Eq (selectStatement e) (selectStatement e.folded) :=
  twin_seq follows_line fun _ => twin_seq (follows_endOf blind_closesSelect _ _) fun _ =>
    twin_seq (follows_value h) fun _ => twin_seq (follows_enter _ _ rfl) fun _ =>
      follows_clauseOr blind_endsCase _ _

theorem follows_matchesOne (selector : Value) {es : List Expression}
    (h : ∀ e ∈ es, Timely timed e) :
    Follows timed Eq (matchesOne selector es) (matchesOne selector (es.map Expression.folded)) := by
  induction es with
  | nil => exact twin_pure rfl
  | cons e rest ih =>
    obtain ⟨he, hrest⟩ := List.forall_mem_cons.1 h
    exact twin_seq (follows_value he) fun _ => twin_seq (follows_same _) fun _ =>
      twin_ite (twin_pure rfl) (ih hrest)

theorem follows_caseMatches (selector : Value) (t : CaseTest)
    (h : ∀ e ∈ t.expressions, Timely timed e) :
    Follows timed Eq (caseMatches selector t) (caseMatches selector t.folded) := by
  cases t with
  | otherwise => exact twin_pure rfl
  | values es => exact follows_matchesOne selector h
  | range low high =>
    obtain ⟨hlow, hhigh⟩ := List.forall_mem_cons.1 h
    exact twin_seq (follows_value hlow) fun _ =>
      twin_seq (follows_value (hhigh high (by simp))) fun _ =>
        twin_seq (follows_same _) fun _ => twin_seq (follows_same _) fun _ => twin_pure rfl
  | relation operator e =>
    exact twin_seq (follows_value (h e List.mem_cons_self)) fun _ =>
      twin_seq (follows_same _) fun _ => follows_same _

theorem follows_anyMatches (selector : Value) {tests : List CaseTest}
    (h : ∀ e ∈ tests.flatMap CaseTest.expressions, Timely timed e) :
    Follows timed Eq (anyMatches selector tests)
      (anyMatches selector (tests.map CaseTest.folded)) := by
  induction tests with
  | nil => exact twin_pure rfl
  | cons t rest ih =>
    rw [List.flatMap_cons, List.forall_mem_append] at h
    exact twin_seq (follows_caseMatches selector t h.1) fun _ => twin_ite (twin_pure rfl) (ih h.2)

theorem follows_case (tests : List CaseTest)
    (h : ∀ e ∈ tests.flatMap CaseTest.expressions, Timely timed e) :
    Follows timed Eq (caseStatement tests) (caseStatement (tests.map CaseTest.folded)) := by
  refine twin_seq follows_line fun here => twin_seq (follows_opener blind_opensSelect _) fun _ => ?_
  refine twin_seq (follows_require _ rfl) fun first => ?_
  refine twin_seq (follows_framePlace first) fun place => ?_
  cases place with
  | none => exact twin_seq (follows_endOf blind_closesSelect _ _) fun _ => twin_pure rfl
  | some i =>
    refine twin_bind follows_frames fun fs gs hfs => ?_
    refine twin_bind (follows_frame hfs i _) fun f g hf => ?_
    obtain ⟨_, hlast, _, hstate⟩ := Frame.alike_iff.1 hf
    rcases FrameState.cases_of_folded hstate with hsame | ⟨_, _, ha, hb, _⟩ | ⟨_, _, ha, hb, _⟩
    · rw [hsame, hlast]
      split
      · refine twin_ite (twin_pure rfl) (twin_seq (follows_anyMatches _ h) fun _ => ?_)
        refine twin_ite ?_ (follows_clauseOr blind_endsCase _ _)
        exact twin_seq (follows_setFrameState _ rfl) fun _ => twin_pure rfl
      · exact twin_throw rfl
    · rw [ha, hb]
      exact twin_throw rfl
    · rw [ha, hb]
      exact twin_throw rfl

/-! ## Loops -/

theorem follows_loopStart {wanted : Statement → Bool} (hw : Blind wanted) (code : ErrorCode) :
    Follows timed Eq (loopStart wanted code) (loopStart wanted code) :=
  twin_seq follows_line fun _ => twin_seq (follows_opener hw _) fun _ =>
    twin_seq (follows_require _ rfl) fun _ => twin_seq (follows_framePlace _) fun _ =>
      twin_seq (follows_require _ rfl) fun _ => twin_seq (follows_truncate _) fun _ => twin_pure rfl

theorem follows_repeatOrLeave (first : Nat) (again : Bool) :
    Follows timed Eq (repeatOrLeave first again) (repeatOrLeave first again) :=
  twin_ite (twin_pure rfl) (twin_seq (follows_leave first) fun _ => twin_pure rfl)

/-- A loop is entered, or left for the line after it. -/
theorem follows_enterOr (here stop : Nat) (state : FrameState) (again : Bool) :
    Follows timed Eq (do
      if again then
        enter here stop state
        return Flow.next
      else
        leave here
        return Flow.jump (stop + 1))
    (do
      if again then
        enter here stop state
        return Flow.next
      else
        leave here
        return Flow.jump (stop + 1)) :=
  twin_ite (twin_seq (follows_enter _ _ rfl) fun _ => twin_pure rfl)
    (twin_seq (follows_leave _) fun _ => twin_pure rfl)

theorem follows_while (h : Timely timed e) (negated : Bool) :
    Follows timed Eq (whileStatement e negated) (whileStatement e.folded negated) :=
  twin_seq follows_line fun _ => twin_seq (follows_closer blind_closesWhile _) fun _ =>
    twin_seq (follows_require _ rfl) fun _ => twin_seq (follows_condition h) fun _ =>
      follows_enterOr _ _ _ _

theorem timely_of_readsClock {st : Statement} (h : st.readsClock = true → timed = true) :
    ∀ e ∈ st.expressions, Timely timed e :=
  fun _ he hr => h (Statement.readsClock_of_mem he hr)

/-- The condition is the one of the opening line. -/
theorem follows_wend (negated : Bool) :
    Follows timed Eq (wendStatement negated) (wendStatement negated) := by
  refine twin_seq (follows_loopStart blind_opensWhile _) fun first => ?_
  refine twin_bind (follows_statement first) fun opening opening' hopening => ?_
  obtain ⟨rfl, htimely⟩ := hopening
  replace htimely := timely_of_readsClock htimely
  have hlast : ∀ again, Follows timed Eq (repeatOrLeave first again) (repeatOrLeave first again) :=
    follows_repeatOrLeave first
  cases opening with
  | «while» e => exact twin_seq (follows_condition (htimely e List.mem_cons_self)) hlast
  | «until» e =>
    exact twin_seq (follows_condition (htimely e List.mem_cons_self)) fun _ =>
      twin_seq (twin_pure rfl) hlast
  | _ => exact twin_seq (twin_pure rfl) hlast

theorem follows_do (c : Condition) (h : ∀ e ∈ c.expressions, Timely timed e) :
    Follows timed Eq (doStatement c) (doStatement c.folded) :=
  twin_seq follows_line fun _ => twin_seq (follows_closer blind_closesDo _) fun _ =>
    twin_seq (follows_require _ rfl) fun _ => twin_seq (follows_test c h) fun _ =>
      follows_enterOr _ _ _ _

theorem follows_loop (c : Condition) (h : ∀ e ∈ c.expressions, Timely timed e) :
    Follows timed Eq (loopStatement c) (loopStatement c.folded) := by
  refine twin_seq (follows_loopStart blind_opensDo _) fun first => ?_
  refine twin_seq (follows_test c h) fun again => twin_ite ?_ (follows_repeatOrLeave _ _)
  refine twin_bind (follows_statement first) fun opening opening' hopening => ?_
  obtain ⟨rfl, htimely⟩ := hopening
  cases opening with
  | «do» head =>
    exact twin_seq (follows_test head (timely_of_readsClock htimely)) fun _ =>
      follows_repeatOrLeave _ _
  | _ => exact follows_repeatOrLeave _ _

theorem follows_number (v : Value) : Follows timed Eq (number v) (number v) := follows_require _ rfl

theorem follows_for (name : Name) {start limit : Expression} {step : Option Expression}
    (h : ∀ e ∈ start :: limit :: step.toList, Timely timed e) :
    Follows timed Eq (forStatement name start limit step)
      (forStatement name.key start.folded limit.folded (step.map Expression.folded)) := by
  obtain ⟨hstart, h⟩ := List.forall_mem_cons.1 h
  obtain ⟨hlimit, hstep⟩ := List.forall_mem_cons.1 h
  refine twin_seq follows_line fun here => ?_
  refine twin_seq (follows_closer (closesFor_folded name) _) fun _ => ?_
  refine twin_seq (follows_require _ rfl) fun stop => ?_
  refine twin_seq (follows_value hstart) fun _ => twin_seq (follows_number _) fun start => ?_
  refine twin_seq (follows_value hlimit) fun _ => twin_seq (follows_number _) fun limit => ?_
  have hlast : ∀ step : Number, Follows timed Eq (do
      if start.within limit step then
        store name (.ofNumber start)
        let assigned := (← memory).variables.peek name
        enter here stop (.for { name, start, limit, step, counter := start, assigned })
        return Flow.next
      else
        leave here
        return Flow.jump (stop + 1) : Run Flow)
      (do
      if start.within limit step then
        store name.key (.ofNumber start)
        let assigned := (← memory).variables.peek name.key
        enter here stop (.for { name := name.key, start, limit, step, counter := start, assigned })
        return Flow.next
      else
        leave here
        return Flow.jump (stop + 1) : Run Flow) := by
    intro step
    refine twin_ite ?_ (twin_seq (follows_leave _) fun _ => twin_pure rfl)
    refine twin_seq (follows_store name.key_key.symm _) fun _ => ?_
    refine twin_bind follows_memory fun m n hm => ?_
    rw [Variables.peek_eq hm.variables name.key_key.symm]
    refine twin_seq (follows_enter _ _ ?_) fun _ => twin_pure rfl
    simp [FrameState.folded, ForLoop.folded]
  cases step with
  | some e =>
    exact twin_seq (follows_value (hstep e (by simp))) fun _ => twin_seq (follows_number _) hlast
  | none => exact twin_seq (twin_pure rfl) hlast

theorem follows_checkNext (name : Option Name) (opening : Statement) :
    Follows timed Eq (checkNext name opening) (checkNext (name.map Name.key) opening.folded) := by
  cases name with
  | none => exact twin_pure rfl
  | some n =>
    cases opening with
    | «for» loop start limit step =>
      simp only [checkNext, Option.map_some, Statement.folded, Name.alike, Name.key_key]
      exact twin_ite (twin_pure rfl) (twin_throw rfl)
    | _ => exact twin_pure rfl

theorem follows_counterAfter {l m : ForLoop} (hc : l.counter = m.counter)
    (ha : l.assigned = m.assigned) (current : Value) :
    Follows timed Eq (counterAfter l current) (counterAfter m current) := by
  unfold counterAfter
  rw [hc, ha]
  exact twin_ite (twin_pure rfl) (follows_number _)

/-- The turn of a FOR loop at its NEXT line. -/
theorem follows_turn (first i : Nat) {l m : ForLoop} (h : l.folded = m.folded) :
    Follows timed Eq (do
      let counter ← counterAfter l (← observe (Eval.get l.name))
      let next := counter.add l.step
      let again := !stalled counter next l.step && next.within l.limit l.step
      store l.name (.ofNumber next)
      let assigned := (← memory).variables.peek l.name
      setFrameState i (.for { l with counter := next, assigned })
      repeatOrLeave first again)
    (do
      let counter ← counterAfter m (← observe (Eval.get m.name))
      let next := counter.add m.step
      let again := !stalled counter next m.step && next.within m.limit m.step
      store m.name (.ofNumber next)
      let assigned := (← memory).variables.peek m.name
      setFrameState i (.for { m with counter := next, assigned })
      repeatOrLeave first again) := by
  obtain ⟨hname, hstart, hlimit, hstep, hcounter, hassigned⟩ := ForLoop.folded_eq_iff.1 h
  refine twin_seq (follows_observe (Eval.follows_get hname)) fun current => ?_
  refine twin_seq (follows_counterAfter hcounter hassigned current) fun counter => ?_
  dsimp only
  rw [hstep, hlimit]
  refine twin_seq (follows_store hname _) fun _ => twin_bind follows_memory fun m n hm => ?_
  rw [Variables.peek_eq hm.variables hname]
  refine twin_seq (follows_setFrameState i ?_) fun _ => follows_repeatOrLeave _ _
  simp [FrameState.folded, ForLoop.folded, hname, hstart]

theorem follows_next (name : Option Name) :
    Follows timed Eq (nextStatement name) (nextStatement (name.map Name.key)) := by
  refine twin_seq follows_line fun _ => twin_seq (follows_opener blind_opensFor _) fun _ => ?_
  refine twin_seq (follows_require _ rfl) fun first => ?_
  refine twin_bind (follows_statement first) fun opening opening' hopening => ?_
  obtain ⟨rfl, -⟩ := hopening
  refine twin_seq (follows_checkNext name opening) fun _ => ?_
  refine twin_seq (follows_framePlace first) fun _ => ?_
  refine twin_seq (follows_require _ rfl) fun i => twin_seq (follows_truncate _) fun _ => ?_
  refine twin_bind follows_frames fun fs gs hfs => ?_
  have hget := get?_eq hfs i
  cases hf : fs.get? i with
  | none =>
    rw [hf] at hget
    rw [Option.map_eq_none_iff.1 hget.symm]
    exact twin_throw rfl
  | some f =>
    rw [hf] at hget
    obtain ⟨g, hg, hfg⟩ := Option.map_eq_some_iff.1 hget.symm
    rw [hg]
    obtain ⟨_, _, _, hstate⟩ := Frame.alike_iff.1 hfg
    obtain ⟨_, _, _, state⟩ := f
    obtain ⟨_, _, _, state'⟩ := g
    rcases FrameState.cases_of_folded hstate with rfl | ⟨l, m, rfl, rfl, hlm⟩ | ⟨_, _, rfl, rfl, _⟩
    · cases state' with
      | «for» l => exact follows_turn first i rfl
      | _ => exact twin_throw rfl
    · exact follows_turn first i hlm.symm
    · exact twin_throw rfl

theorem isTarget_folded (kind : BlockKind) (name : Option Name) (depth : Nat) (f : Frame) :
    isTarget kind (name.map Name.key) depth f.folded = isTarget kind name depth f := by
  obtain ⟨first, last, d, state⟩ := f
  cases name with
  | none => cases state <;> rfl
  | some n =>
    cases state with
    | «for» loop =>
      change (_ && (loop.name.key).alike n.key) = (_ && loop.name.alike n)
      rw [Name.alike_key]
      rfl
    | _ => rfl

theorem follows_target (kind : BlockKind) (name : Option Name) :
    Follows timed Eq (target? kind name) (target? kind (name.map Name.key)) := by
  refine twin_bind follows_frames fun fs gs hfs => twin_seq follows_depth fun depth => twin_pure ?_
  -- The same place is found in both stacks with their names in capitals.
  have hplace : ∀ (hs : Frames) (n : Option Name),
      hs.folded.lastPlace? (isTarget kind (n.map Name.key) depth) =
        hs.lastPlace? (isTarget kind n depth) := by
    intro hs n
    simp only [Stack.lastPlace?, Frames.folded, Stack.mapItems_items, Stack.lastPlace?_map,
      isTarget_folded]
  have hkeys : (name.map Name.key).map Name.key = name.map Name.key := by cases name <;> simp
  have hright := hplace gs (name.map Name.key)
  rw [hkeys, ← hfs, hplace] at hright
  exact hright

theorem follows_exit (kind : BlockKind) (name : Option Name) :
    Follows timed Eq (exitStatement kind name) (exitStatement kind (name.map Name.key)) := by
  refine twin_seq (follows_target kind name) fun place => ?_
  cases place with
  | none => exact twin_pure rfl
  | some i =>
    refine twin_bind follows_frames fun fs gs hfs => ?_
    refine twin_bind (follows_frame hfs i _) fun f g hf => ?_
    obtain ⟨_, hlast, _⟩ := Frame.alike_iff.1 hf
    rw [hlast]
    exact twin_ite (twin_seq (follows_truncate _) fun _ => twin_pure rfl)
      (twin_seq (follows_truncate _) fun _ => twin_pure rfl)

theorem follows_continue (kind : BlockKind) (name : Option Name) :
    Follows timed Eq (continueStatement kind name)
      (continueStatement kind (name.map Name.key)) := by
  refine twin_seq (follows_target kind name) fun place => ?_
  cases place with
  | none => exact twin_pure rfl
  | some i =>
    refine twin_seq (follows_truncate _) fun _ => twin_bind follows_frames fun fs gs hfs => ?_
    refine twin_bind (follows_frame hfs i _) fun f g hf => twin_pure ?_
    obtain ⟨_, hlast, _⟩ := Frame.alike_iff.1 hf
    rw [hlast]

/-! ## Jumps and calls -/

theorem follows_labelLine (name : Name) :
    Follows timed Eq (labelLine name) (labelLine name.key) := by
  refine twin_bind follows_read fun p q hp => ?_
  rw [hp.labels name]
  exact follows_require _ rfl

theorem follows_enterCall {aliases aliases' : List (Name × Name)}
    (h : aliases.map (fun a => (a.1.key, a.2.key)) = aliases'.map fun a => (a.1.key, a.2.key)) :
    Follows timed Eq (enterCall aliases) (enterCall aliases') := by
  refine twin_bind follows_memory fun m n hm => ?_
  have henter : (m.variables.enterCall (some (m.line + 1)) aliases).map Variables.folded =
      (n.variables.enterCall (some (n.line + 1)) aliases').map Variables.folded := by
    rw [← Variables.enterCall_folded, ← Variables.enterCall_folded, hm.variables, hm.line, h]
  refine twin_bind (follows_ofExcept (pairedExcept_of_map _ henter)) fun vars vars' hvars => ?_
  exact follows_setMemory ⟨hvars, hm.random, hm.line, hm.keyboard⟩

theorem follows_gosub (name : Name) :
    Follows timed Eq (gosubStatement name) (gosubStatement name.key) :=
  twin_seq (follows_labelLine name) fun _ => twin_seq (follows_enterCall rfl) fun _ => twin_pure rfl

theorem follows_sub : Follows timed Eq subStatement subStatement :=
  twin_seq follows_line fun _ => twin_seq (follows_endOf blind_closesSub _ _) fun _ => twin_pure rfl

/-- An argument with its names in capitals. -/
def Passed.folded : Passed → Passed
  | .alias parameter target => .alias parameter.key target.key
  | .value parameter v => .value parameter.key v

theorem follows_passArgument (param : Parameter) (h : Timely timed e) :
    Follows timed (fun a b => b = a.folded) (passArgument param e)
      (passArgument param.folded e.folded) := by
  have hvalue : Follows timed (fun a b => b = Passed.folded a)
      (do return Passed.value param.name (← value e))
      (do return Passed.value param.name.key (← value e.folded)) :=
    twin_seq (follows_value h) fun _ => twin_pure rfl
  cases e with
  | «variable» target => exact twin_ite (twin_pure rfl) hvalue
  | _ => exact hvalue

theorem follows_passArguments (params : List Parameter) {args : List Expression}
    (h : ∀ e ∈ args, Timely timed e) :
    Follows timed (fun a b => b = a.map Passed.folded) (passArguments params args)
      (passArguments (params.map Parameter.folded) (args.map Expression.folded)) := by
  induction params generalizing args with
  | nil => exact twin_pure rfl
  | cons param params ih =>
    cases args with
    | nil => exact twin_pure rfl
    | cons e args =>
      obtain ⟨he, hargs⟩ := List.forall_mem_cons.1 h
      refine twin_bind (follows_passArgument param he) fun a a' ha => ?_
      refine twin_bind (ih hargs) fun rest rest' hrest => twin_pure ?_
      rw [ha, hrest, List.map_cons]

theorem aliases_folded (passed : List Passed) :
    (passed.map Passed.folded).filterMap Passed.alias? =
      (passed.filterMap Passed.alias?).map fun a => (a.1.key, a.2.key) := by
  rw [List.filterMap_map, List.map_filterMap]
  congr 1
  funext a
  cases a <;> rfl

theorem follows_bindValues (passed : List Passed) :
    Follows timed Eq (bindValues passed) (bindValues (passed.map Passed.folded)) := by
  induction passed with
  | nil => exact twin_pure rfl
  | cons a rest ih =>
    cases a with
    | «alias» parameter target => exact ih
    | value parameter v =>
      exact twin_seq (follows_storeLocal parameter.key_key.symm v) fun _ => ih

theorem follows_call (name : Name) {args : List Expression} (h : ∀ e ∈ args, Timely timed e) :
    Follows timed Eq (callStatement name args)
      (callStatement name.key (args.map Expression.folded)) := by
  refine twin_bind follows_read fun p q hp => ?_
  rw [hp.subPlace? name]
  refine twin_seq (follows_require _ rfl) fun first => ?_
  refine twin_bind (follows_statement first) fun opening opening' hopening => ?_
  obtain ⟨rfl, -⟩ := hopening
  cases opening with
  | sub other params =>
    simp only [Statement.folded, List.length_map]
    refine twin_ite (twin_throw rfl) (twin_seq (follows_endOf blind_closesSub _ _) fun last => ?_)
    refine twin_bind (follows_passArguments params h) fun passed passed' hpassed => ?_
    subst hpassed
    refine twin_seq (follows_enterCall ?_) fun _ => twin_seq (follows_bindValues passed) fun _ =>
      twin_seq (follows_enter _ _ rfl) fun _ => twin_pure rfl
    simp only [aliases_folded, List.map_map, Function.comp_def, Name.key_key]
  | _ => exact twin_throw rfl

/-! ## TRY -/

theorem follows_try : Follows timed Eq tryStatement tryStatement :=
  twin_seq follows_line fun _ => twin_seq (follows_endOf blind_closesTry _ _) fun _ =>
    twin_seq (follows_closer blind_isCatch _) fun _ =>
      twin_seq (follows_closer blind_isFinally _) fun _ =>
        twin_seq (follows_enter _ _ rfl) fun _ => twin_pure rfl

theorem follows_catch : Follows timed Eq catchStatement catchStatement := by
  refine twin_seq follows_line fun _ => twin_seq (follows_opener blind_opensTry _) fun _ => ?_
  refine twin_seq (follows_require _ rfl) fun first => ?_
  refine twin_seq (follows_framePlace first) fun place => ?_
  refine twin_bind follows_frames fun fs gs hfs => ?_
  have hget : (place.bind fs.get?).map Frame.folded = (place.bind gs.get?).map Frame.folded := by
    cases place with
    | none => rfl
    | some i => exact get?_eq hfs i
  generalize place.bind fs.get? = found at hget
  generalize place.bind gs.get? = found' at hget
  cases found <;> cases found'
  · exact twin_seq (follows_endOf blind_closesTry _ _) fun _ => twin_pure rfl
  · cases hget
  · cases hget
  · rename_i f g
    obtain ⟨_, hlast, _, hstate⟩ := Frame.alike_iff.1 (Option.some.inj hget)
    obtain ⟨_, last, _, state⟩ := f
    obtain ⟨_, last', _, state'⟩ := g
    cases hlast
    rcases FrameState.cases_of_folded hstate with rfl | ⟨_, _, rfl, rfl, _⟩ | ⟨t, u, rfl, rfl, htu⟩
    · dsimp only
      split <;> exact twin_pure rfl
    · exact twin_pure rfl
    · obtain ⟨_, _, hfinally, _⟩ := TryBlock.unworded_eq_iff.1 htu
      obtain ⟨_, _, finallyLine, _⟩ := t
      obtain ⟨_, _, finallyLine', _⟩ := u
      cases hfinally
      cases finallyLine <;> exact twin_pure rfl

/-- What is found of a TRY block on both sides. -/
def TryFrame.Alike : Option (Nat × Nat × Frame) → Option (Nat × Nat × Frame) → Prop
  | some (first, i, f), some (first', i', g) => first = first' ∧ i = i' ∧ f.folded = g.folded
  | none, none => True
  | _, _ => False

theorem follows_tryFrame : Follows timed TryFrame.Alike tryFrame? tryFrame? := by
  refine twin_seq follows_line fun _ => twin_seq (follows_opener blind_opensTry _) fun found => ?_
  cases found with
  | none => exact twin_pure trivial
  | some first =>
    refine twin_seq (follows_framePlace first) fun place => ?_
    cases place with
    | none => exact twin_pure trivial
    | some i =>
      refine twin_bind follows_frames fun fs gs hfs => twin_pure ?_
      have hget := get?_eq hfs i
      cases hf : fs.get? i <;> cases hg : gs.get? i <;> rw [hf, hg] at hget
      · trivial
      · cases hget
      · cases hget
      · exact ⟨rfl, rfl, Option.some.inj hget⟩

theorem follows_finally : Follows timed Eq finallyStatement finallyStatement := by
  refine twin_bind follows_tryFrame fun found found' hfound => ?_
  cases found <;> cases found'
  · exact twin_pure rfl
  · exact hfound.elim
  · exact hfound.elim
  · rename_i a b
    obtain ⟨first, i, _, _, _, state⟩ := a
    obtain ⟨first', i', _, _, _, state'⟩ := b
    obtain ⟨rfl, rfl, hf⟩ := hfound
    have hstate : state.folded = state'.folded := (Frame.alike_iff.1 hf).2.2.2
    rcases FrameState.cases_of_folded hstate with rfl | ⟨_, _, rfl, rfl, _⟩ | ⟨t, u, rfl, rfl, htu⟩
    · cases state with
      | «try» block => exact twin_seq (follows_setFrameState _ rfl) fun _ => twin_pure rfl
      | _ => exact twin_pure rfl
    · exact twin_pure rfl
    · obtain ⟨_, hcatch, hfinally, hpending⟩ := TryBlock.unworded_eq_iff.1 htu
      refine twin_seq (follows_setFrameState _ ?_) fun _ => twin_pure rfl
      simp [FrameState.folded, TryBlock.unworded, hcatch, hfinally, hpending]

theorem follows_endTry : Follows timed Eq endTryStatement endTryStatement := by
  refine twin_bind follows_tryFrame fun found found' hfound => ?_
  cases found <;> cases found'
  · exact twin_pure rfl
  · exact hfound.elim
  · exact hfound.elim
  · rename_i a b
    obtain ⟨first, i, _, _, _, state⟩ := a
    obtain ⟨first', i', _, _, _, state'⟩ := b
    obtain ⟨rfl, rfl, hf⟩ := hfound
    obtain ⟨_, _, _, hstate⟩ := Frame.alike_iff.1 hf
    refine twin_seq (follows_leave first) fun _ => ?_
    rcases FrameState.cases_of_folded hstate with rfl | ⟨_, _, rfl, rfl, _⟩ | ⟨t, u, rfl, rfl, htu⟩
    · dsimp only
      split
      · exact twin_throw rfl
      · exact twin_pure rfl
    · exact twin_pure rfl
    · obtain ⟨_, _, _, hpending⟩ := TryBlock.unworded_eq_iff.1 htu
      obtain ⟨_, _, _, pending⟩ := t
      obtain ⟨_, _, _, pending'⟩ := u
      -- The waiting error is raised again on both sides.
      cases pending <;> cases pending'
      · exact twin_pure rfl
      · cases hpending
      · cases hpending
      · exact twin_throw (Option.some.inj hpending)

/-! ## Devices -/

theorem follows_printItem (i : PrintItem) (h : ∀ e ∈ i.expressions, Timely timed e) :
    Follows timed Eq (printItem i) (printItem i.folded) := by
  cases i with
  | expression e =>
    exact twin_seq (follows_value (h e List.mem_cons_self)) fun _ => follows_onScreen _
  | comma => exact follows_onScreen fun screen => screen.print "\t"
  | semicolon => exact twin_pure rfl

theorem staysOnLine_folded (items : List PrintItem) :
    staysOnLine (items.map PrintItem.folded) = staysOnLine items := by
  unfold staysOnLine
  rw [List.getLast?_map]
  cases items.getLast? with
  | none => rfl
  | some i => cases i <;> rfl

theorem follows_print (items : List PrintItem)
    (h : ∀ e ∈ items.flatMap PrintItem.expressions, Timely timed e) :
    Follows timed Eq (printStatement items) (printStatement (items.map PrintItem.folded)) := by
  have hitems : ∀ i ∈ items, Follows timed Eq (printItem i) (printItem i.folded) :=
    fun i hi => follows_printItem i fun e he => h e (List.mem_flatMap.2 ⟨i, hi, he⟩)
  unfold printStatement
  rw [staysOnLine_folded]
  exact twin_seq (follows_forM hitems) fun _ =>
    twin_ite (twin_pure rfl) (twin_seq (follows_onScreen _) fun _ => twin_pure rfl)

theorem follows_color (h : Timely timed e) : Follows timed Eq (color e) (color e.folded) :=
  twin_seq (follows_integer h) fun _ => twin_ite (twin_throw rfl) (twin_pure rfl)

theorem follows_colors {foreground : Expression} {background : Option Expression}
    (h : ∀ e ∈ foreground :: background.toList, Timely timed e) :
    Follows timed Eq (colorStatement foreground background)
      (colorStatement foreground.folded (background.map Expression.folded)) := by
  obtain ⟨hforeground, hbackground⟩ := List.forall_mem_cons.1 h
  refine twin_seq (follows_color hforeground) fun _ => twin_seq (follows_onScreen _) fun _ => ?_
  cases background with
  | some e =>
    exact twin_seq (follows_color (hbackground e (by simp))) fun _ =>
      twin_seq (follows_onScreen _) fun _ => twin_pure rfl
  | none => exact twin_pure rfl

theorem follows_integers {args : List Expression} (h : ∀ e ∈ args, Timely timed e) :
    Follows timed Eq (args.mapM integer) ((args.map Expression.folded).mapM integer) :=
  follows_mapM fun e he => follows_integer (h e he)

theorem follows_draw (shape : Shape) {args : List Expression} (filled : Bool)
    (h : ∀ e ∈ args, Timely timed e) :
    Follows timed Eq (drawStatement shape args filled)
      (drawStatement shape (args.map Expression.folded) filled) := by
  have hlast : ∀ points, Follows timed Eq (do onScreen (·.paint points); return Flow.next)
      (do onScreen (·.paint points); return Flow.next) :=
    fun points => twin_seq (follows_onScreen _) fun _ => twin_pure rfl
  unfold drawStatement
  dsimp only
  rw [List.length_map]
  refine twin_ite (twin_throw rfl) ?_
  split
  · simp only [List.map_cons, List.map_nil, List.forall_mem_cons] at h ⊢
    obtain ⟨hx, hy, hr, hstart, hstop, -⟩ := h
    exact twin_seq (follows_integer hx) fun _ => twin_seq (follows_integer hy) fun _ =>
      twin_seq (follows_integer hr) fun _ => twin_seq (follows_real hstart) fun _ =>
        twin_seq (follows_real hstop) fun _ => twin_seq (twin_pure rfl) hlast
  · rename_i hother
    split
    · rename_i hargs
      obtain ⟨x, _, rfl, _, h1⟩ := List.map_eq_cons_iff.1 hargs
      obtain ⟨y, _, rfl, _, h2⟩ := List.map_eq_cons_iff.1 h1
      obtain ⟨r, _, rfl, _, h3⟩ := List.map_eq_cons_iff.1 h2
      obtain ⟨start, _, rfl, _, h4⟩ := List.map_eq_cons_iff.1 h3
      obtain ⟨stop, _, rfl, _, h5⟩ := List.map_eq_cons_iff.1 h4
      obtain rfl := List.map_eq_nil_iff.1 h5
      exact absurd rfl (hother x y r start stop rfl)
    · exact twin_seq (follows_integers h) fun _ => twin_seq (twin_pure rfl) hlast

theorem follows_sleep (h : Timely timed e) :
    Follows timed Eq (sleepStatement e) (sleepStatement e.folded) :=
  twin_seq (follows_real h) fun _ =>
    twin_ite (twin_throw rfl) (twin_ite (twin_pure rfl) (twin_pure rfl))

theorem follows_reseed (seed : UInt64) :
    Follows timed Eq (do setMemory ((← memory).randomize seed); return Flow.next)
      (do setMemory ((← memory).randomize seed); return Flow.next) :=
  twin_bind follows_memory fun _ _ hm =>
    twin_seq (follows_setMemory ⟨hm.variables, rfl, hm.line, hm.keyboard⟩) fun _ => twin_pure rfl

/-- A RANDOMIZE without a seed takes one from the clock. -/
theorem follows_randomize (seed : Option Expression)
    (h : (Statement.randomize seed).readsClock = true → timed = true) :
    Follows timed Eq (randomizeStatement seed)
      (randomizeStatement (seed.map Expression.folded)) := by
  cases seed with
  | some e =>
    exact twin_seq (follows_integer (timely_of_readsClock h e List.mem_cons_self)) fun _ =>
      twin_seq (twin_pure rfl) follows_reseed
  | none =>
    refine twin_bind follows_host fun _ _ hh => twin_seq (twin_pure ?_) follows_reseed
    rw [hh.clock (h rfl)]

/-- A sound that is asked for. -/
theorem follows_request (request : SoundRequest) :
    Follows timed Eq (do onHost (·.record request); return Flow.next)
      (do onHost (·.record request); return Flow.next) :=
  twin_seq (follows_record request) fun _ => twin_pure rfl

theorem follows_onFiles {α : Type} (act : Action Files α) :
    Follows timed Eq (onFiles act) (onFiles act) := by
  refine twin_bind follows_host fun _ _ hh => ?_
  rw [hh.files]
  exact twin_seq (follows_setFiles _) fun _ => follows_same _

theorem valueOfBytes_key (name : Name) (bytes : ByteArray) :
    valueOfBytes name.key bytes = valueOfBytes name bytes := by
  simp only [valueOfBytes, Name.sigil_key, Name.isArray_key]

section Files

variable {path amount data : Expression} {target : Location}

theorem follows_open (mode : FileMode) (h : ∀ e ∈ path :: target.indexes, Timely timed e) :
    Follows timed Eq (openStatement path mode target)
      (openStatement path.folded mode target.folded) := by
  obtain ⟨hpath, htarget⟩ := List.forall_mem_cons.1 h
  exact twin_seq (follows_text hpath) fun _ => twin_seq (follows_onFiles _) fun _ =>
    twin_seq (follows_assign target _ htarget) fun _ => twin_pure rfl

theorem follows_readBytes (h : ∀ a ∈ e :: amount :: target.indexes, Timely timed a) :
    Follows timed Eq (readStatement e amount target)
      (readStatement e.folded amount.folded target.folded) := by
  obtain ⟨hhandle, h⟩ := List.forall_mem_cons.1 h
  obtain ⟨hamount, htarget⟩ := List.forall_mem_cons.1 h
  refine twin_seq (follows_integer hhandle) fun _ => twin_seq (follows_count hamount) fun _ => ?_
  rw [Location.name_folded]
  simp only [valueOfBytes_key]
  exact twin_seq (follows_onFiles _) fun _ => twin_seq (follows_assign target _ htarget) fun _ =>
    twin_pure rfl

theorem follows_load (h : ∀ e ∈ path :: target.indexes, Timely timed e) :
    Follows timed Eq (loadStatement path target) (loadStatement path.folded target.folded) := by
  obtain ⟨hpath, htarget⟩ := List.forall_mem_cons.1 h
  refine twin_seq (follows_text hpath) fun _ => twin_bind follows_host fun _ _ hh => ?_
  rw [hh.files, Location.name_folded]
  simp only [valueOfBytes_key]
  exact twin_seq (follows_same _) fun _ => twin_seq (follows_assign target _ htarget) fun _ =>
    twin_pure rfl

theorem follows_write (h : ∀ a ∈ [e, data], Timely timed a) :
    Follows timed Eq (writeStatement e data) (writeStatement e.folded data.folded) :=
  twin_seq (follows_integer (h e (by simp))) fun handle =>
    twin_seq (follows_value (h data (by simp))) fun _ =>
      twin_seq (follows_same _) fun bytes =>
        twin_seq (follows_onFiles (Files.writing handle bytes)) fun _ => twin_pure rfl

theorem follows_seek (h : ∀ a ∈ [e, amount], Timely timed a) :
    Follows timed Eq (seekStatement e amount) (seekStatement e.folded amount.folded) :=
  twin_seq (follows_integer (h e (by simp))) fun handle =>
    twin_seq (follows_count (h amount (by simp))) fun n =>
      twin_seq (follows_onFiles (Files.seeking handle n)) fun _ => twin_pure rfl

theorem follows_save (h : ∀ a ∈ [path, data], Timely timed a) :
    Follows timed Eq (saveStatement path data) (saveStatement path.folded data.folded) :=
  twin_seq (follows_text (h path (by simp))) fun path =>
    twin_seq (follows_value (h data (by simp))) fun _ =>
      twin_seq (follows_same _) fun bytes =>
        twin_seq (follows_onFiles (Files.saving path bytes)) fun _ => twin_pure rfl

end Files

/-! ## Every statement -/

/-- A statement in capitals does what the statement does. -/
theorem follows_execute (st : Statement) (h : st.readsClock = true → timed = true) :
    Follows timed Eq (execute st) (execute st.folded) := by
  have hall := timely_of_readsClock h
  cases st with
  | remark | label | «return» | endSub | stop => exact twin_pure rfl
  | assign target e =>
    obtain ⟨he, htarget⟩ := List.forall_mem_cons.1 hall
    exact twin_seq (follows_value he) fun v => twin_seq (follows_assign target v htarget) fun _ =>
      twin_pure rfl
  | localVariable name initial => exact follows_local name initial hall
  | dim name axes => exact follows_dim name axes hall
  | swap a b => exact follows_swap a b hall
  | push name e =>
    exact follows_add name (hall e List.mem_cons_self) fun v a => do return ((), ← a.push v)
  | unshift name e =>
    exact follows_add name (hall e List.mem_cons_self) fun v a => do return ((), ← a.unshift v)
  | pop name target => exact follows_take name target hall Grid.pop
  | shift name target => exact follows_take name target hall Grid.shift
  | print items => exact follows_print items hall
  | «if» e => exact follows_if (hall e List.mem_cons_self) false
  | «unless» e => exact follows_if (hall e List.mem_cons_self) true
  | elseIf e => exact follows_elseIf (hall e List.mem_cons_self)
  | «else» => exact follows_else
  | endIf | endUnless => exact follows_leaveBlock blind_opensIfOrUnless
  | «while» e => exact follows_while (hall e List.mem_cons_self) false
  | «until» e => exact follows_while (hall e List.mem_cons_self) true
  | wend => exact follows_wend false
  | uend => exact follows_wend true
  | «do» c => exact follows_do c hall
  | loop c => exact follows_loop c hall
  | «for» name start limit step => exact follows_for name hall
  | next name => exact follows_next name
  | select e => exact follows_select (hall e List.mem_cons_self)
  | case tests => exact follows_case tests hall
  | endSelect => exact follows_leaveBlock blind_opensSelect
  | «try» => exact follows_try
  | «catch» name => exact follows_catch
  | «finally» => exact follows_finally
  | endTry => exact follows_endTry
  | throw e => exact twin_seq (follows_value (hall e List.mem_cons_self)) fun _ => twin_throw rfl
  | exit kind name => exact follows_exit kind name
  | «continue» kind name => exact follows_continue kind name
  | goto name => exact twin_seq (follows_labelLine name) fun _ => twin_pure rfl
  | gosub name => exact follows_gosub name
  | sub name params => exact follows_sub
  | call name args => exact follows_call name hall
  | randomize seed => exact follows_randomize seed h
  | sleep e => exact follows_sleep (hall e List.mem_cons_self)
  | view e =>
    exact twin_seq (follows_text (hall e List.mem_cons_self)) fun _ =>
      twin_seq (follows_requestView _) fun _ => twin_pure rfl
  | color foreground background => exact follows_colors hall
  | locate row column =>
    exact twin_seq (follows_count (hall row (by simp [Statement.expressions]))) fun _ =>
      twin_seq (follows_count (hall column (by simp [Statement.expressions]))) fun _ =>
        twin_seq (follows_onScreen _) fun _ => twin_pure rfl
  | cls => exact twin_seq (follows_onScreen fun screen => screen.clear) fun _ => twin_pure rfl
  | draw shape args filled => exact follows_draw shape filled hall
  | tempo e =>
    exact twin_seq (follows_real (hall e List.mem_cons_self)) fun _ =>
      twin_ite (follows_request _) (twin_throw rfl)
  | volume e =>
    exact twin_seq (follows_integer (hall e List.mem_cons_self)) fun _ =>
      twin_ite (twin_throw rfl) (follows_request _)
  | voice e => exact twin_seq (follows_count (hall e List.mem_cons_self)) fun _ => follows_request _
  | play voice notes =>
    exact twin_seq (follows_count (hall voice (by simp [Statement.expressions]))) fun _ =>
      twin_seq (follows_text (hall notes (by simp [Statement.expressions]))) fun _ =>
        follows_request _
  | playStop => exact follows_request _
  | openFile path mode handle => exact follows_open mode hall
  | closeFile handle =>
    exact twin_seq (follows_integer (hall handle List.mem_cons_self)) fun n =>
      twin_seq (follows_onFiles (Files.closing n)) fun _ => twin_pure rfl
  | readBytes handle amount target => exact follows_readBytes hall
  | writeBytes handle data => exact follows_write hall
  | seek handle position => exact follows_seek hall
  | loadFile path target => exact follows_load hall
  | saveFile path data => exact follows_save hall

end Run

end LineBasic
