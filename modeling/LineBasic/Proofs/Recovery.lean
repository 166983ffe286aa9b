-- Where an error goes. It goes to the topmost TRY block that can still take it
-- and that the failed line is in, seen from the call of that block. Calls made
-- since are cut off, and so are all blocks entered since.
import LineBasic.Proofs.FrameStack

namespace LineBasic

/-! ## The text of an error in a variable -/

/-- The name of a text variable that is no array. -/
def Name.isText (n : Name) : Bool := !n.isArray && n.chars.getLast? = some '$'

theorem Kind.ofSigil_ofChar {c : Char} : Kind.ofSigil (Sigil.ofChar c) = .string ↔ c = '$' := by
  unfold Sigil.ofChar
  split <;> simp_all [Kind.ofSigil]

theorem Kind.ofName_eq_string {n : Name} (ha : n.isArray = false) :
    Kind.ofName n = .string ↔ n.chars.getLast? = some '$' := by
  unfold Kind.ofName Name.sigil Name.base
  rw [ha, if_neg Bool.false_ne_true]
  cases n.chars.getLast? with
  | none => simp [Kind.ofSigil]
  | some c => simpa using Kind.ofSigil_ofChar

/-- A text variable can hold any text. -/
theorem fitTo_of_isText {name : Name} (h : name.isText = true) (s : String) :
    fitTo name (.string s) = .ok (.string s) := by
  simp only [Name.isText, Bool.and_eq_true, Bool.not_eq_true', decide_eq_true_eq] at h
  unfold fitTo Value.coerce
  rw [h.1, if_neg Bool.false_ne_true, (Kind.ofName_eq_string h.1).2 h.2]
  rfl

/-! ## Storing into a variable -/

/-- `new` is `old` with `v` stored under a name: reading the name gives `v`, every
other cell holds what it held, and the calls and their aliases are the same. -/
structure Variables.Sets (old : Variables) (name : Name) (v : Value) (new : Variables) : Prop where
  reads : new.lookup name = some v
  others : ∀ c, c ≠ old.cell name false → new.fetch c = old.fetch c
  scopes : new.scopes.items.map (fun s => (s.aliases, s.returnLine)) =
    old.scopes.items.map fun s => (s.aliases, s.returnLine)

namespace Variables

variable (vars : Variables)

/-- A name that the innermost call knows leads to the same cell whether or not
a cell of that call is asked for. -/
theorem cell_hasLocal (name : Name) : vars.cell name (vars.hasLocal name) = vars.cell name false := by
  unfold cell hasLocal depth Stack.size Stack.top?
  rcases List.eq_nil_or_concat vars.scopes.items with h | ⟨below, scope, h⟩
  · rw [h]
    rfl
  · rw [h, List.concat_eq_append, List.getLast?_concat, List.length_append, List.length_singleton,
      locate, locate, List.getElem?_concat_length]
    cases ha : scope.aliases.get? name.key with
    | some target => simp [ha]
    | none => simp [ha, Table.contains]

/-- A local cell that a name leads to holds something. -/
theorem contains_of_locate {scopes : List Scope} {depth level : Nat} {key k : Name}
    (h : locate scopes depth key false = .local level k) :
    ∃ scope, scopes[level]? = some scope ∧ scope.locals.contains k = true := by
  induction depth generalizing key with
  | zero => cases h
  | succ n ih =>
    rw [locate] at h
    split at h
    · cases h
    · rename_i scope hscope
      split at h
      · exact ih h
      · split at h
        · rename_i hc
          cases h
          exact ⟨scope, hscope, by simpa using hc⟩
        · cases h

/-- Storing into a cell that a name leads to leads no name elsewhere. -/
theorem locate_modify {scopes : List Scope} {level : Nat} {k : Name} {v : Value} {scope : Scope}
    (hscope : scopes[level]? = some scope) (hc : scope.locals.contains k = true)
    (depth : Nat) (key : Name) :
    locate (scopes.modify level fun s => { s with locals := s.locals.insert k v }) depth key false =
      locate scopes depth key false := by
  induction depth generalizing key with
  | zero => rfl
  | succ n ih =>
    simp only [locate, List.getElem?_modify, Option.map_eq_map, ih]
    by_cases hn : level = n
    · subst hn
      have hsame : (scope.locals.insert k v).contains key = scope.locals.contains key := by
        by_cases hk : key = k
        · subst hk
          rw [hc]
          simp [Table.contains]
        · unfold Table.contains
          rw [Table.get?_insert_ne _ (Ne.symm hk)]
      simp [hscope, hsame]
    · simp [hn]

theorem fetch_store_self {c : Cell} (hc : vars.isLive c = true) (v : Value) :
    (vars.store v c).fetch c = some v := by
  cases c with
  | global key => simp [store, fetch]
  | «local» level key =>
    simp only [isLive, decide_eq_true_eq] at hc
    simp only [store, fetch, Stack.get?, Stack.modify, List.getElem?_modify, if_true]
    rw [List.getElem?_eq_getElem hc]
    simp

theorem fetch_store_ne {c d : Cell} (h : d ≠ c) (v : Value) : (vars.store v c).fetch d = vars.fetch d := by
  cases c with
  | global key =>
    cases d with
    | global other =>
      have hne : key ≠ other := fun he => h (congrArg _ he.symm)
      simp [store, fetch, Table.get?_insert_ne _ hne]
    | «local» level other => rfl
  | «local» level key =>
    cases d with
    | global other => rfl
    | «local» level' other =>
      simp only [store, fetch, Stack.get?, Stack.modify, List.getElem?_modify]
      by_cases hl : level = level'
      · subst hl
        have hne : key ≠ other := fun he => h (by rw [he])
        cases vars.scopes.items[level]? with
        | none => rfl
        | some scope => simp [Table.get?_insert_ne _ hne]
      · cases vars.scopes.items[level']? <;> simp [hl]

/-- Storing into the cell of a name leaves every name with its cell. -/
theorem cell_store (name other : Name) (v : Value) :
    (vars.store v (vars.cell name false)).cell other false = vars.cell other false := by
  cases hc : vars.cell name false with
  | global key => rfl
  | «local» level key =>
    obtain ⟨scope, hscope, hin⟩ := contains_of_locate hc
    unfold cell depth Stack.size
    simp only [store, Stack.modify, List.length_modify]
    exact locate_modify hscope hin _ _

/-- Storing a value under a name. -/
theorem sets_put (name : Name) (v : Value) : vars.Sets name v (vars.put name v (vars.hasLocal name)) := by
  unfold put
  rw [cell_hasLocal]
  refine ⟨?_, fun c hc => vars.fetch_store_ne hc v, ?_⟩
  · unfold lookup
    rw [cell_store, fetch_store_self _ (vars.isLive_cell name false)]
  · cases vars.cell name false with
    | global key => rfl
    | «local» level key =>
      apply List.ext_getElem?
      intro i
      simp only [store, Stack.modify, List.getElem?_map, List.getElem?_modify]
      by_cases hi : level = i
      · cases vars.scopes.items[i]? <;> simp [hi]
      · cases vars.scopes.items[i]? <;> simp [hi]

end Variables

/-! ## Calls -/

section Calls

variable {p : Program} {c c' : Control} {st : Statement}

/-- Every call notes the line after the one that it was made from. -/
def Control.Called (c : Control) : Prop := ∀ o ∈ c.calls.items, ∃ l, o = some (l + 1)

theorem Control.Called.push {calls : Stack (Option Nat)} {line : Nat} (h : c.Called)
    (hc : c.calls.push (some (line + 1)) = .ok calls) : Called { c with calls } := by
  obtain ⟨_, rfl⟩ := Stack.push_eq_ok _ hc
  intro o ho
  rcases List.mem_append.1 ho with ho | ho
  · exact h o ho
  · exact ⟨line, List.mem_singleton.1 ho⟩

/-- A move stays in its calls or makes one more from its line. -/
theorem Moves.calls_eq {flow : Flow} (hm : Moves p c st flow c') :
    c'.calls = c.calls ∨ c.calls.push (some (c.line + 1)) = .ok c'.calls := by
  cases hm
  case gosub hc => exact Or.inr hc
  case call hc _ => exact Or.inr hc
  all_goals exact Or.inl rfl

/-- A failure stays at its line, and in its calls but for one that it has just made. -/
theorem Fails.calls_eq {e : Error} (hf : Fails p c st e c') (hs : c.Sound p) :
    c'.line = c.line ∧
      (c'.calls = c.calls ∨ c.calls.push (some (c.line + 1)) = .ok c'.calls) := by
  cases hf
  case mildInCall hc _ => exact ⟨rfl, Or.inr hc⟩
  case mismatch hb hk => exact absurd (hb.kind_eq hs) hk
  all_goals exact ⟨rfl, Or.inl rfl⟩

/-- What a failure leaves of the stack of blocks is the lower part of it. -/
theorem Fails.isPrefix_frames {e : Error} (hf : Fails p c st e c') (hs : c.Sound p) :
    c'.frames.items <+: c.frames.items := by
  cases hf
  case mildInLoop => exact List.take_prefix _ _
  case raised first _ _ _ _ _ _ _ =>
    obtain ⟨n, _, hn⟩ := c.frames.leave_eq_truncate first c.depth
    rw [hn]
    exact List.take_prefix _ _
  case mismatch hb hk => exact absurd (hb.kind_eq hs) hk
  all_goals exact List.prefix_rfl

theorem Control.Called.of_calls_eq (h : c.Called)
    (hc : c'.calls = c.calls ∨ c.calls.push (some (c.line + 1)) = .ok c'.calls) : c'.Called := by
  rcases hc with hc | hc
  · intro o ho
    rw [hc] at ho
    exact h o ho
  · exact h.push hc

namespace Session

variable {s : Session}

theorem follow_called (h : s.control.Called) (flow : Flow) : (s.follow flow).2.control.Called := by
  cases flow with
  | «return» =>
    rcases s.returnFromCall_cases with ⟨t, hr, _, _, rfl | ht⟩ | ⟨l, t, hr, _, _, _, ht⟩
    · simpa only [follow, hr, control_halt] using h
    · simp only [follow, hr, control_halt, ht]
      exact fun o ho => h o ((List.dropLast_sublist _).subset ho)
    · simp only [follow, hr, ht]
      exact fun o ho => h o ((List.dropLast_sublist _).subset ho)
  | next | jump _ | stop | rest _ => exact h

theorem recover_called (h : s.control.Called) (e : Error) : (s.recover e).2.control.Called := by
  rcases s.recover_cases e with ⟨_, hr⟩ | ⟨_, hr⟩
  · rwa [hr]
  · generalize s.recover e = r at hr
    cases hr with
    | failed _ _ _ hc =>
      rw [control_halt, hc]
      exact h
    | @resumed i line f t _ _ =>
      obtain ⟨u, _, _, hu, hres⟩ := s.resume_cases i f line t e
      have hcut : u.control.Called := by
        rw [hu]
        exact fun o ho => h o (List.mem_of_mem_take ho)
      rcases hres with hres | ⟨e', _, hres⟩
      · rw [hres]
        exact hcut
      · rw [hres]
        exact hcut

/-- What is known of every state that a program gets to. -/
structure Regular (p : Program) (s : Session) : Prop where
  program : s.program = p
  sound : s.control.Sound p
  called : s.control.Called

theorem Regular.step (hp : p.Made) (h : s.Regular p) : s.step.2.Regular p := by
  obtain ⟨rfl, hsound, hcalled⟩ := h
  refine ⟨s.program_step, step_sound hp.labelsWithin hsound, ?_⟩
  have hstep := s.step_steps
  generalize s.step = r at hstep
  cases hstep with
  | idle _ => exact hcalled
  | pastEnd _ => exact hcalled
  | moved _ _ hm => exact follow_called (hcalled.of_calls_eq hm.calls_eq) _
  | failed _ _ hf => exact recover_called (hcalled.of_calls_eq (hf.calls_eq hsound).2) _

theorem Regular.reset (h : s.Regular p) : s.reset.Regular p :=
  ⟨h.program, reset_sound h.sound, fun o ho => by cases ho⟩

theorem reachable_regular (hp : p.Made) (hs : Reachable p s) : s.Regular p := by
  refine hs.induct (P := Regular p) ?_ ?_ ?_ ?_ ?_
  · exact fun seed host => ⟨rfl, sound_start p seed host, fun o ho => by cases ho⟩
  · exact fun s hs => hs.step hp
  · exact fun s hs => hs.reset
  · exact fun s hs => ⟨hs.program, hs.sound, hs.called⟩
  · exact fun s _ _ _ hs => ⟨hs.program, hs.sound, hs.called⟩

end Session

end Calls

/-! ## The block that answers -/

/-- The line that a program is at, seen from the call at a depth: the current line,
or the line that the next call was made from. -/
def Control.At (c : Control) (depth line : Nat) : Prop :=
  depth = c.depth ∧ line = c.line ∨
    depth < c.depth ∧ c.calls.items[depth]? = some (some (line + 1))

/-- A TRY block can take an error that arises strictly between two lines: in its
body if it has a clause at all, and in its CATCH section if it has a FINALLY. -/
inductive Frame.Guards (f : Frame) (t : TryBlock) : Nat → Nat → Prop where
  | body {clause : Nat} (hp : t.phase = .body)
      (hc : t.catchLine = some clause ∨ t.catchLine = none ∧ t.finallyLine = some clause) :
      Guards f t f.first clause
  | catch {clause last : Nat} (hp : t.phase = .catch) (hc : t.catchLine = some clause)
      (hf : t.finallyLine = some last) : Guards f t clause last

/-- Where a TRY block goes on that takes an error, and as what. The error waits
for the end of the block if it enters FINALLY, and only then. -/
inductive TryBlock.Advances (t : TryBlock) (e : Error) : Nat → TryBlock → Prop where
  | toCatch {line : Nat} (hp : t.phase = .body) (hc : t.catchLine = some line) :
      Advances t e line { t with phase := .catch, pending := none }
  | toFinally {line : Nat} (hp : t.phase = .body ∧ t.catchLine = none ∨ t.phase = .catch)
      (hf : t.finallyLine = some line) :
      Advances t e line { t with phase := .finally, pending := some e }

/-- The frame at place `i` is a TRY block that can take an error from here. -/
structure Control.Answers (c : Control) (i : Nat) (f : Frame) (t : TryBlock) : Prop where
  frame : c.frames.get? i = some f
  block : f.state = .try t
  within : ∃ line low high, c.At f.depth line ∧ f.Guards t low high ∧ low < line ∧ line < high

/-- Of the blocks that can take an error from here, the frame at place `i` is the topmost. -/
structure Control.Innermost (c : Control) (i : Nat) (f : Frame) (t : TryBlock) : Prop where
  answers : c.Answers i f t
  topmost : ∀ j g u, i < j → ¬ c.Answers j g u

theorem TryBlock.advances_iff {t new : TryBlock} {e : Error} {line : Nat} :
    t.Advances e line new ↔ Session.handler? t e = some (line, new) := by
  obtain ⟨phase, catchLine, finallyLine, pending⟩ := t
  constructor
  · rintro (⟨rfl, rfl⟩ | ⟨⟨rfl, rfl⟩ | rfl, rfl⟩) <;> rfl
  · intro h
    unfold Session.handler? at h
    split at h
    · rename_i hp hc
      cases h
      exact .toCatch hp hc
    · rename_i hp hc hf
      cases h
      exact .toFinally (Or.inl ⟨hp, hc⟩) hf
    · rename_i hp hf
      cases h
      exact .toFinally (Or.inr hp) hf
    · cases h

/-- A block guards the lines of its region if it can take an error at all. -/
theorem Frame.guards_iff {f : Frame} {t : TryBlock} {e : Error} {low high : Nat} :
    f.Guards t low high ↔
      Session.tryRegion f t = some (low, high) ∧ Session.handler? t e ≠ none := by
  obtain ⟨phase, catchLine, finallyLine, pending⟩ := t
  constructor
  · rintro (⟨rfl, rfl | ⟨rfl, rfl⟩⟩ | ⟨rfl, rfl, rfl⟩) <;>
      exact ⟨rfl, by simp [Session.handler?]⟩
  · rintro ⟨hr, hh⟩
    cases phase <;> cases catchLine <;> cases finallyLine <;>
      simp [Session.tryRegion, Session.handler?] at hr hh
    all_goals obtain ⟨rfl, rfl⟩ := hr
    · exact .body rfl (Or.inr ⟨rfl, rfl⟩)
    · exact .body rfl (Or.inl rfl)
    · exact .body rfl (Or.inl rfl)
    · exact .catch rfl rfl rfl

/-! ## The search -/

namespace Session

variable {s : Session} {e : Error}

/-- What the search for a block sees of the calls is what it should see. -/
theorem lineSeenFrom_eq_some (h : s.control.Called) {depth line : Nat} :
    s.lineSeenFrom depth = some line ↔ s.control.At depth line := by
  unfold lineSeenFrom Control.At Session.depth
  rw [State.depth_control]
  rcases Nat.lt_trichotomy depth s.control.depth with hlt | rfl | hgt
  · have hne : depth ≠ s.control.depth := by omega
    have hitem : s.control.calls.items[depth]? =
        (s.memory.variables.scopes.get? depth).map (·.returnLine) := List.getElem?_map
    rw [if_neg hne, if_pos hlt]
    simp only [hne, false_and, false_or, hlt, true_and]
    unfold Variables.callSite
    cases hscope : s.memory.variables.scopes.get? depth with
    | none => simp [hitem, hscope]
    | some scope =>
      rw [hscope] at hitem
      obtain ⟨l, hl⟩ := h _ (List.mem_of_getElem? hitem)
      rw [hitem]
      simp only [Option.map_some, Option.bind_some, Option.some.injEq] at hl ⊢
      rw [hl]
      simp
  · simp only [if_true, Option.some.injEq, true_and, Nat.lt_irrefl, false_and, or_false]
    exact eq_comm
  · rw [if_neg (by omega), if_neg (by omega)]
    simp only [reduceCtorEq, false_iff]
    rintro (⟨heq, _⟩ | ⟨hlt, _⟩) <;> omega

theorem failedWithin_iff (h : s.control.Called) {depth low high : Nat} :
    s.failedWithin depth low high = true ↔
      ∃ line, s.control.At depth line ∧ low < line ∧ line < high := by
  unfold failedWithin
  cases hl : s.lineSeenFrom depth with
  | none =>
    simp only [Bool.false_eq_true, false_iff]
    rintro ⟨line, hat, _⟩
    rw [(lineSeenFrom_eq_some h).2 hat] at hl
    cases hl
  | some line =>
    simp only [Bool.and_eq_true, decide_eq_true_eq]
    constructor
    · exact fun hin => ⟨line, (lineSeenFrom_eq_some h).1 hl, hin⟩
    · rintro ⟨line', hat, hin⟩
      cases hl.symm.trans ((lineSeenFrom_eq_some h).2 hat)
      exact hin

/-- The search passes a frame that cannot take the error, and may drop it. -/
theorem recoverFrom_pass (h : s.control.Called) {n : Nat}
    (hn : ∀ f t, ¬ s.control.Answers n f t) :
    s.recoverFrom e (n + 1) = s.recoverFrom e n ∨
      s.recoverFrom e (n + 1) = recoverFrom { s with frames := s.frames.erase n } e n := by
  rw [recoverFrom]
  split
  · rename_i f hf
    split
    · rename_i t ht
      split
      · exact Or.inl rfl
      · rename_i low high hregion
        split
        · rename_i hin
          split
          · rename_i line new hh
            -- Such a frame would take the error.
            obtain ⟨line, hat, hin⟩ := (failedWithin_iff h).1 hin
            have hguards : f.Guards t low high := (Frame.guards_iff (e := e)).2 ⟨hregion, by simp [hh]⟩
            exact absurd ⟨hf, ht, line, low, high, hat, hguards, hin⟩ (hn f t)
          · exact Or.inl rfl
        · exact Or.inr rfl
    · exact Or.inl rfl
  · exact Or.inl rfl

/-- A frame that is dropped makes no difference below it. -/
theorem answers_erase {n i : Nat} {f : Frame} {t : TryBlock} (hi : i < n) :
    Control.Answers (State.control { s with frames := s.frames.erase n }) i f t ↔
      s.control.Answers i f t := by
  have hget : (s.frames.erase n).get? i = s.frames.get? i := List.getElem?_eraseIdx_of_lt hi
  constructor
  · rintro ⟨hf, ht, hin⟩
    exact ⟨hget.symm.trans hf, ht, hin⟩
  · rintro ⟨hf, ht, hin⟩
    exact ⟨hget.trans hf, ht, hin⟩

/-- An error goes to the topmost frame that can take it. -/
theorem recoverFrom_of_answers {n i line : Nat} {f : Frame} {t new : TryBlock}
    (h : s.control.Called) (hi : i < n) (hf : s.control.Answers i f t)
    (hn : ∀ j g u, i < j → j < n → ¬ s.control.Answers j g u) (ha : t.Advances e line new) :
    s.recoverFrom e n = s.resume i f line new e := by
  induction n generalizing s with
  | zero => omega
  | succ n ih =>
    rcases Nat.lt_or_ge i n with hlt | hge
    · rcases recoverFrom_pass (e := e) h fun g u => hn n g u hlt (Nat.lt_succ_self n) with hr | hr
      · rw [hr]
        exact ih h hlt hf fun j g u hij hj => hn j g u hij (by omega)
      · rw [hr, ← resume_erase hlt]
        refine ih h hlt ((answers_erase hlt).2 hf) fun j g u hij hj => ?_
        rw [answers_erase hj]
        exact hn j g u hij (by omega)
    · obtain rfl : i = n := by omega
      obtain ⟨seen, low, high, hat, hguards, hin⟩ := hf.within
      have hregion := (Frame.guards_iff (e := e)).1 hguards
      rw [recoverFrom]
      have hget : s.frames.get? i = some f := hf.frame
      simp only [hget, hf.block, hregion.1, (failedWithin_iff h).2 ⟨seen, hat, hin⟩,
        TryBlock.advances_iff.1 ha, if_true]

/-- An error that no frame can take ends the program. -/
theorem recoverFrom_of_none {n : Nat} (h : s.control.Called)
    (hn : ∀ j f t, j < n → ¬ s.control.Answers j f t) :
    ∃ fs, s.recoverFrom e n = (.failed e, halt { s with frames := fs }) := by
  induction n generalizing s with
  | zero => exact ⟨s.frames, rfl⟩
  | succ n ih =>
    rcases recoverFrom_pass (e := e) h fun f t => hn n f t (Nat.lt_succ_self n) with hr | hr
    · rw [hr]
      exact ih h fun j f t hj => hn j f t (by omega)
    · rw [hr]
      refine ih (s := { s with frames := s.frames.erase n }) h fun j f t hj => ?_
      rw [answers_erase hj]
      exact hn j f t (by omega)

end Session

/-! ## What the CATCH variable hears -/

/-- The variable of the CATCH at a line. -/
def Program.catchName? (p : Program) (line : Nat) : Option Name :=
  match p.statement? line with
  | some (.catch name) => name
  | _ => none

/-- What a TRY block does to the variables when it takes an error: the variable of
its CATCH, if it has one, holds the text of the error. -/
def Variables.Hears (old : Variables) (e : Error) (new : Variables) : Option Name → Prop
  | none => new = old
  | some name => old.Sets name (.string e.description) new

theorem Variables.Hears.depth_eq {old new : Variables} {e : Error} {name : Option Name}
    (h : old.Hears e new name) : new.depth = old.depth := by
  cases name with
  | none => exact congrArg Variables.depth h
  | some name => simpa [Variables.depth, Stack.size] using congrArg List.length h.scopes

theorem Variables.depth_cutTo {vars : Variables} {depth : Nat} (h : depth ≤ vars.depth) :
    (vars.cutTo depth).depth = depth := by
  simp only [cutTo, Variables.depth, Stack.size, Stack.truncate_items, List.length_take] at h ⊢
  omega

namespace Session

variable {s : Session} {line : Nat} {e : Error}

/-- A CATCH variable that is absent or holds text takes the text of any error. -/
theorem bindError_of_isText (h : (s.program.catchName? line).all Name.isText = true) :
    ∃ vars trail, s.bindError line e =
        .ok { s with memory := { s.memory with «variables» := vars, trail } } ∧
      s.memory.variables.Hears e vars (s.program.catchName? line) := by
  unfold bindError Program.catchName? at *
  split at h
  · rename_i name hst
    rw [hst]
    cases name with
    | none => exact ⟨_, _, rfl, rfl⟩
    | some name =>
      have hfit := fitTo_of_isText h e.description
      simp only [Memory.set, hfit]
      exact ⟨_, _, rfl, s.memory.variables.sets_put name _⟩
  · rename_i hst
    split
    · rename_i name hc
      exact absurd hc (hst (some name))
    · exact ⟨_, _, rfl, rfl⟩

/-- A TRY block whose CATCH variable can hear it takes an error. -/
theorem resume_of_isText {i : Nat} {f : Frame} {new : TryBlock}
    (h : (s.program.catchName? line).all Name.isText = true)
    (hp : new.phase = .catch ∨ s.program.catchName? line = none) :
    ∃ vars trail, s.resume i f line new e = (.onward, { s with
        memory := { s.memory with «variables» := vars, trail, line := line + 1 }
        frames := (s.frames.truncate (i + 1)).modify i fun f => { f with state := .try new } }) ∧
      (s.memory.variables.cutTo f.depth).Hears e vars (s.program.catchName? line) := by
  unfold resume
  dsimp only
  by_cases hphase : new.phase = .catch
  · rw [if_pos hphase]
    obtain ⟨vars, trail, hb, hh⟩ := bindError_of_isText (e := e) (s := { s with
      memory := { s.memory with «variables» := s.memory.variables.cutTo f.depth }
      frames := (s.frames.truncate (i + 1)).modify i fun f => { f with state := .try new } }) h
    rw [hb]
    exact ⟨vars, trail, rfl, hh⟩
  · rw [if_neg hphase]
    refine ⟨_, _, rfl, ?_⟩
    rw [hp.resolve_left hphase]
    rfl

/-! ## A statement that fails -/

/-- The statement `st` at the current line fails with `e`, in which its line is
noted, and leaves `u`. -/
structure FailsWith (s : Session) (st : Statement) (e : Error) (u : Session) : Prop where
  running : s.stopped = false
  statement : s.program.statement? s.line = some st
  fails : ∃ e₀ t, Run.execute st s.program s.toState = .error e₀ t ∧
    e = e₀.inLine s.line ∧ u = s.withState t

namespace FailsWith

variable {p : Program} {st : Statement} {u : Session}

theorem step_eq (h : s.FailsWith st e u) : s.step = u.recover e := by
  obtain ⟨e₀, t, hx, rfl, rfl⟩ := h.fails
  unfold step
  simp only [h.running, h.statement, hx, Bool.false_eq_true, if_false]

/-- What is left of the control is one of the listed failures. -/
theorem control (h : s.FailsWith st e u) :
    ∃ e₀, e = e₀.inLine s.line ∧ Fails s.program s.control st e₀ u.control := by
  obtain ⟨e₀, t, hx, rfl, rfl⟩ := h.fails
  have hsteers := Run.steers_execute st s.program s.toState
  unfold Run.After at hsteers
  rw [hx] at hsteers
  exact ⟨e₀, rfl, hsteers⟩

theorem program_eq (h : s.FailsWith st e u) : u.program = s.program := by
  obtain ⟨_, _, _, _, rfl⟩ := h.fails
  rfl

theorem stopped_eq (h : s.FailsWith st e u) : u.stopped = false := by
  obtain ⟨_, _, _, _, rfl⟩ := h.fails
  exact h.running

theorem regular (h : s.FailsWith st e u) (hr : s.Regular p) : u.Regular p := by
  obtain ⟨rfl, hsound, hcalled⟩ := hr
  obtain ⟨_, _, hfails⟩ := h.control
  exact ⟨h.program_eq, (hfails.sound h.statement hsound).1,
    hcalled.of_calls_eq (hfails.calls_eq hsound).2⟩

theorem isPrefix_frames (h : s.FailsWith st e u) (hr : s.Regular p) :
    u.frames.items <+: s.frames.items := by
  obtain ⟨rfl, hsound, _⟩ := hr
  obtain ⟨_, _, hfails⟩ := h.control
  exact hfails.isPrefix_frames hsound

end FailsWith

/-- A program that runs is past its last line, or its statement makes a move, or it
fails. -/
theorem step_cases (h : s.stopped = false) :
    s.program.statement? s.line = none ∧ s.step = (.ended, s.halt) ∨
      ∃ st, s.program.statement? s.line = some st ∧
        ((∃ flow t, Moves s.program s.control st flow t.control ∧
          s.step = (s.withState t).follow flow) ∨ ∃ e u, s.FailsWith st e u) := by
  cases hst : s.program.statement? s.line with
  | none =>
    refine Or.inl ⟨rfl, ?_⟩
    simp only [step, h, hst, Bool.false_eq_true, if_false]
  | some st =>
    refine Or.inr ⟨st, rfl, ?_⟩
    have hsteers := Run.steers_execute st s.program s.toState
    unfold Run.After at hsteers
    cases hx : Run.execute st s.program s.toState with
    | ok flow t =>
      rw [hx] at hsteers
      refine Or.inl ⟨flow, t, hsteers, ?_⟩
      simp only [step, h, hst, hx, Bool.false_eq_true, if_false]
    | error e t => exact Or.inr ⟨e.inLine s.line, s.withState t, h, hst, e, t, hx, rfl, rfl⟩

/-- A mild error of a statement goes to the topmost TRY block that can take it. -/
theorem FailsWith.step_of_innermost {p : Program} {st : Statement} {u : Session} {i : Nat}
    {f : Frame} {t new : TryBlock} (h : s.FailsWith st e u) (hr : s.Regular p) (he : e.Mild)
    (hi : u.control.Innermost i f t) (ha : t.Advances e line new) :
    s.step = u.resume i f line new e := by
  have hlt : i < u.frames.size := (List.getElem?_eq_some_iff.1 hi.answers.frame).1
  rw [h.step_eq, recover, if_neg (by simpa [Error.Mild] using he)]
  exact recoverFrom_of_answers (h.regular hr).called hlt hi.answers
    (fun j g u hj _ => hi.topmost j g u hj) ha

/-- A mild error that no TRY block can take ends the program. -/
theorem FailsWith.step_of_none {p : Program} {st : Statement} {u : Session}
    (h : s.FailsWith st e u) (hr : s.Regular p) (he : e.Mild)
    (hn : ∀ i f t, ¬ u.control.Answers i f t) :
    ∃ fs, s.step = (.failed e, halt { u with frames := fs }) := by
  rw [h.step_eq, recover, if_neg (by simpa [Error.Mild] using he)]
  exact recoverFrom_of_none (h.regular hr).called fun j f t _ => hn j f t

/-- There is no CATCH variable at the FINALLY line of a block. -/
theorem catchName?_finally {p : Program} {f : Frame} {t : TryBlock} (hf : f.Fits p)
    (ht : f.state = .try t) (hl : t.finallyLine = some line) : p.catchName? line = none := by
  obtain ⟨_, _, st, hst, hw⟩ := hf.finishes t line ht hl
  unfold Program.catchName?
  rw [hst]
  cases st <;> first | rfl | cases hw

/-- A block that answers has a clause to go on at. The variable of that clause is
the CATCH variable of the block, or none if the clause is its FINALLY. -/
theorem exists_advances {c : Control} {p : Program} {i : Nat} {f : Frame} {t : TryBlock}
    (ha : c.Answers i f t) (hs : c.Sound p) (e : Error)
    (ht : ∀ l name, t.catchLine = some l → p.catchName? l = some name → name.isText = true) :
    ∃ line new, t.Advances e line new ∧ (p.catchName? line).all Name.isText = true ∧
      (new.phase = .catch ∨ p.catchName? line = none) := by
  obtain ⟨_, low, high, _, hguards, _⟩ := ha.within
  obtain ⟨⟨line, new⟩, hh⟩ := Option.ne_none_iff_exists'.1 ((Frame.guards_iff (e := e)).1 hguards).2
  have hadv := TryBlock.advances_iff.2 hh
  refine ⟨line, new, hadv, ?_⟩
  cases hadv with
  | toCatch _ hc =>
    refine ⟨?_, Or.inl rfl⟩
    cases hname : p.catchName? line with
    | none => rfl
    | some name => exact ht line name hc hname
  | toFinally _ hf =>
    rw [catchName?_finally (hs.frames.fits f (List.mem_of_getElem? ha.frame)) ha.block hf]
    exact ⟨rfl, Or.inr rfl⟩

variable {u : Session} {st : Statement}

/-- An error that TRY blocks may take goes to the topmost of them that answers, and
the program goes on after the clause of that block: with the calls and the blocks
that it had there, its variables as they were but for the CATCH variable, which
holds the text of the error. An error that no block answers ends the program. -/
theorem an_error_goes_to_the_innermost_block {p : Program} (hp : p.Made) (hs : Reachable p s)
    (hf : s.FailsWith st e u) (he : e.isStructural = false) :
    (∀ i f t, u.control.Innermost i f t →
      (∀ l name, t.catchLine = some l → p.catchName? l = some name → name.isText = true) →
      ∃ line new s', t.Advances e line new ∧ s.step = (.onward, s') ∧ s'.stopped = false ∧
        s'.line = line + 1 ∧ s'.depth = f.depth ∧
        s'.frames.items = s.frames.items.take i ++ [{ f with state := .try new }] ∧
        (u.memory.variables.cutTo f.depth).Hears e s'.memory.variables (p.catchName? line) ∧
        s'.host = u.host) ∧
    ((∀ i f t, ¬ u.control.Answers i f t) → s.step.1 = .failed e ∧ s.step.2.stopped = true) := by
  have hr := reachable_regular hp hs
  have hru := hf.regular hr
  refine ⟨fun i f t hi ht => ?_, fun hn => ?_⟩
  · obtain ⟨line, new, hadv, htext, hphase⟩ := exists_advances hi.answers hru.sound e ht
    rw [← hru.program] at htext hphase
    obtain ⟨vars, trail, hres, hhears⟩ := resume_of_isText (i := i) (f := f) (e := e) htext hphase
    have hstep := hf.step_of_innermost hr he hi hadv
    refine ⟨line, new, _, hadv, hstep.trans hres, hf.stopped_eq, rfl, ?_, ?_, ?_, rfl⟩
    · have hle := hru.sound.frames.within f (List.mem_of_getElem? hi.answers.frame)
      rw [← State.depth_control] at hle
      exact hhears.depth_eq.trans (Variables.depth_cutTo hle)
    · obtain ⟨above, habove⟩ := hf.isPrefix_frames hr
      have hlt : i < u.frames.items.length := (List.getElem?_eq_some_iff.1 hi.answers.frame).1
      rw [← habove, List.take_append_of_le_length (Nat.le_of_lt hlt)]
      exact u.frames.truncate_modify_items hi.answers.frame _
    · rw [← hru.program]
      exact hhears
  · obtain ⟨fs, hstep⟩ := hf.step_of_none hr he hn
    rw [hstep]
    exact ⟨rfl, rfl⟩

theorem a_thrown_text_reaches_the_variable :
    let p := Program.ofLines [⟨0, .try⟩, ⟨1, .throw (.string "boom")⟩,
      ⟨0, .catch (some ⟨['E', '$']⟩)⟩, ⟨0, .endTry⟩]
    let s := (Session.start p 7 {}).step.2
    ∃ s', s.step = (.onward, s') ∧ s'.line = 3 ∧
      s'.memory.variables.lookup ⟨['E', '$']⟩ = some (.string "boom") := by
  intro p s
  have hf : s.FailsWith (.throw (.string "boom"))
      { code := .thrown, line := some 1, message := "boom" } s :=
    ⟨rfl, rfl, Error.thrown "boom", s.toState, rfl, rfl, rfl⟩
  have hi : s.control.Innermost 0 ⟨0, 3, 0, .try ⟨.body, some 2, none, none⟩⟩
      ⟨.body, some 2, none, none⟩ := by
    refine ⟨⟨rfl, rfl, 1, 0, 2, Or.inl ⟨rfl, rfl⟩, .body rfl (Or.inl rfl), by decide, by decide⟩, ?_⟩
    intro j g u hj ha
    have hlt : j < 1 := (List.getElem?_eq_some_iff.1 ha.frame).1
    omega
  obtain ⟨line, new, s', hadv, hstep, _, hline, _, _, hhears, _⟩ :=
    (an_error_goes_to_the_innermost_block (.ofLines _) (.step (.start 7 {})) hf rfl).1 _ _ _ hi
      fun l name hl hname => by cases hl; cases hname; rfl
  cases hadv with
  | toCatch _ hc =>
    cases hc
    exact ⟨s', hstep, hline, hhears.reads⟩
  | toFinally _ h => cases h

end Session

end LineBasic
