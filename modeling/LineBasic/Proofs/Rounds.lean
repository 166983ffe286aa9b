-- How often a FOR loop goes around. A loop from `a` to `b` by `k` makes the passes
-- that its bounds ask for, with the counter at `a`, `a + k`, `a + 2 * k` and so on. It
-- then ends if the next counter is past the limit also as a REAL, or if there is no next
-- counter. Otherwise it makes one pass more: the bound test rounds both numbers.
import LineBasic.Proofs.Counting
import LineBasic.Proofs.Rounding

namespace LineBasic

/-! ## The number of rounds -/

/-- How many of `a`, `a + k`, `a + 2 * k` and so on do not pass `b`: a loop that counts
exactly goes around so often. -/
def rounds (a b k : Int) : Nat := ((b - a).fdiv k + 1).toNat

/-- `v` has not passed `b` in the direction of `k`. -/
def NotPast (k b v : Int) : Prop := if k < 0 then b ≤ v else v ≤ b

instance (k b v : Int) : Decidable (NotPast k b v) := by
  unfold NotPast
  infer_instance

theorem lt_rounds_iff {k : Int} (hk : k ≠ 0) (a b : Int) (j : Nat) :
    j < rounds a b k ↔ NotPast k b (a + j * k) := by
  have hfloor : j < rounds a b k ↔ (j : Int) ≤ (b - a).fdiv k := by
    unfold rounds
    omega
  rw [hfloor]
  unfold NotPast
  split
  · rw [← Int.neg_fdiv_neg, Int.fdiv_eq_ediv_of_nonneg _ (by omega),
      Int.le_ediv_iff_mul_le (by omega), Int.mul_neg]
    omega
  · rw [Int.fdiv_eq_ediv_of_nonneg _ (by omega), Int.le_ediv_iff_mul_le (by omega)]
    omega

theorem NotPast.nearest {k b v : Int} (h : NotPast k b v) :
    NotPast k (Real.nearest b) (Real.nearest v) := by
  unfold NotPast at *
  split at h
  · rw [if_pos (by assumption)]
    exact Real.nearest_mono h
  · rw [if_neg (by assumption)]
    exact Real.nearest_mono h

/-- The bound test compares two INTEGERs as REALs. -/
theorem within_integer (v b k : Int64) :
    (Number.integer v).within (.integer b) (.integer k) = true ↔
      NotPast k.toInt (Real.nearest b.toInt) (Real.nearest v.toInt) := by
  have hk : (Number.integer k).isNegative = decide (k.toInt < 0) := by
    simp [Number.isNegative, Int64.lt_iff_toInt_lt]
  unfold Number.within NotPast
  rw [hk]
  by_cases h : k.toInt < 0
  · simp [h, Number.le]
  · simp [h, Number.le]

section Counter

variable {a b k : Int64} {j : Nat}

theorem toInt_ne_zero (hk : k ≠ 0) : k.toInt ≠ 0 :=
  fun h => hk (Int64.toInt_inj.1 h)

/-- As long as the counter has not passed the limit, it is exact. -/
theorem toInt_stepped_of_lt (hk : k ≠ 0) (h : j < rounds a.toInt b.toInt k.toInt) :
    (Integer.stepped a k j).toInt = a.toInt + j * k.toInt := by
  have hin := (lt_rounds_iff (toInt_ne_zero hk) _ _ _).1 h
  have ha := Integer.toInt_bounds a
  have hb := Integer.toInt_bounds b
  rw [Integer.toInt_stepped]
  unfold NotPast at hin
  split at hin
  · have hj : (j : Int) * k.toInt ≤ 0 := Int.mul_nonpos_of_nonneg_of_nonpos (by omega) (by omega)
    omega
  · have hj : 0 ≤ (j : Int) * k.toInt := Int.mul_nonneg (by omega) (by omega)
    omega

/-- A loop has counted to its end after the rounds that its bounds ask for: the next
counter is past the limit when both are rounded to a REAL, or the range ends there. -/
def Noticed (a b k : Int64) : Prop :=
  let n := rounds a.toInt b.toInt k.toInt
  0 < n ∧ Integer.stepped a k n = Integer.stepped a k (n - 1) ∨
    ¬ NotPast k.toInt (Real.nearest b.toInt) (Real.nearest (Integer.stepped a k n).toInt)

instance (a b k : Int64) : Decidable (Noticed a b k) := by
  unfold Noticed
  infer_instance

/-- Before the last round a loop goes around. -/
theorem goesAround_of_lt (hk : k ≠ 0) (h : j + 1 < rounds a.toInt b.toInt k.toInt) :
    Run.goesAround (Integer.stepped a k j) k (.integer b) = true := by
  have hnow := toInt_stepped_of_lt hk (Nat.lt_of_succ_lt h)
  have hnext := toInt_stepped_of_lt hk h
  unfold Run.goesAround
  rw [Integer.add_stepped, Bool.and_eq_true, decide_eq_true_eq, within_integer, hnext]
  refine ⟨fun heq => toInt_ne_zero hk ?_, ?_⟩
  · have := congrArg Int64.toInt heq
    rw [hnow, hnext, Int.natCast_succ, Int.add_mul, Int.one_mul] at this
    omega
  · exact ((lt_rounds_iff (toInt_ne_zero hk) _ _ _).1 h).nearest

/-- After the last round a loop goes around only if it has not noticed. -/
theorem goesAround_last (h : j + 1 = rounds a.toInt b.toInt k.toInt) :
    Run.goesAround (Integer.stepped a k j) k (.integer b) = true ↔ ¬ Noticed a b k := by
  unfold Run.goesAround Noticed
  rw [Integer.add_stepped, Bool.and_eq_true, decide_eq_true_eq, within_integer, ← h]
  simp

/-- A loop without rounds is passed over only if it notices. -/
theorem within_none (h : rounds a.toInt b.toInt k.toInt = 0) :
    (Number.integer a).within (.integer b) (.integer k) = true ↔ ¬ Noticed a b k := by
  rw [within_integer]
  simp [Noticed, h, Integer.stepped_zero]

theorem within_start (hk : k ≠ 0) (h : 0 < rounds a.toInt b.toInt k.toInt) :
    (Number.integer a).within (.integer b) (.integer k) = true := by
  have hin := (lt_rounds_iff (toInt_ne_zero hk) _ _ _).1 h
  rw [Int.natCast_zero, Int.zero_mul, Int.add_zero] at hin
  rw [within_integer]
  exact hin.nearest

/-- Among numbers of 52 bits every loop notices. -/
theorem noticed_of_small (hk : k ≠ 0) (ha : a.toInt.natAbs < 2 ^ 52) (hb : b.toInt.natAbs < 2 ^ 52)
    (hs : k.toInt.natAbs < 2 ^ 52) : Noticed a b k := by
  have hk' := toInt_ne_zero hk
  -- The next counter is past the limit, and by no more than one step.
  have hpast := (lt_rounds_iff hk' a.toInt b.toInt _).not.1 (Nat.lt_irrefl (rounds a.toInt b.toInt k.toInt))
  have hsize : (a.toInt + rounds a.toInt b.toInt k.toInt * k.toInt).natAbs < 2 ^ 53 := by
    unfold NotPast at hpast
    cases hn : rounds a.toInt b.toInt k.toInt with
    | zero => omega
    | succ n =>
      have hlast := (lt_rounds_iff hk' a.toInt b.toInt n).1 (by omega)
      unfold NotPast at hlast
      rw [hn, Int.natCast_succ, Int.add_mul, Int.one_mul] at hpast
      rw [Int.natCast_succ, Int.add_mul, Int.one_mul]
      by_cases hneg : k.toInt < 0
      · rw [if_pos hneg] at hpast hlast
        omega
      · rw [if_neg hneg] at hpast hlast
        omega
  have hexact : (Integer.stepped a k (rounds a.toInt b.toInt k.toInt)).toInt =
      a.toInt + rounds a.toInt b.toInt k.toInt * k.toInt := by
    rw [Integer.toInt_stepped]
    unfold Real.least Real.greatest
    omega
  refine Or.inr ?_
  rw [hexact, Real.nearest_small hsize, Real.nearest_small (by omega)]
  exact hpast

end Counter

/-! ## Through the body -/

namespace Session

/-- The statement at the current line succeeds and leaves a variable as it is. -/
def Spares (s : Session) (name : Name) : Prop :=
  ∃ st flow t, s.program.statement? s.line = some st ∧
    Run.execute st s.program s.toState = .ok flow t ∧
      t.memory.variables.peek name = s.memory.variables.peek name

/-- PRINT of a text succeeds and leaves all variables as they are. -/
theorem spares_print {t : Session} {text : String}
    (h : t.program.statement? t.line = some (.print [.expression (.string text)])) (name : Name) :
    t.Spares name :=
  ⟨_, _, _, h, rfl, rfl⟩

section Round

variable {s t t' : Session} {p : Program} {line last : Nat} {fs : Frames} {vars : Variables}
  {name : Name} {a c k : Int64} {b : Number}

/-- A plain line that succeeds leads to the next line, in the same blocks and calls. -/
theorem Runs.onward {st : Statement} {flow : Flow} {u : State} (h : t.Runs p line fs vars)
    (hst : p.statement? line = some st) (hs : st.isSteady = true)
    (hx : Run.execute st p t.toState = .ok flow u) :
    t.step.2.Runs p (line + 1) fs u.memory.variables ∧ u.memory.variables.depth = vars.depth := by
  obtain ⟨rfl, hrun, rfl, rfl, rfl⟩ := h
  have hcontrol := (Run.steady_execute st hs).control t.program t.toState
  have honward := Run.onward_execute st hs t.program t.toState
  unfold Run.After at hcontrol honward
  rw [hx] at hcontrol honward
  change u.control = t.control at hcontrol
  have hdepth : u.memory.variables.depth = t.memory.variables.depth :=
    u.depth_control.trans ((congrArg Control.depth hcontrol).trans t.depth_control.symm)
  refine ⟨?_, hdepth⟩
  refine step_after (P := fun r => r.2.Runs _ _ _ _) hrun hst ?_
  unfold Run.After
  rw [hx]
  have hline : u.memory.line = t.line := congrArg Control.line hcontrol
  have hframes : u.frames = t.frames := congrArg Control.frames hcontrol
  change flow.isOnward = true at honward
  cases flow with
  | next => exact ⟨rfl, hrun, congrArg (· + 1) hline, hframes, rfl⟩
  | rest delay => exact ⟨rfl, hrun, congrArg (· + 1) hline, hframes, rfl⟩
  | jump | «return» | stop => cases honward

/-- The program is at a line of the loop that it entered at `s`. The loop has counted to
`c`, and its variable holds that. -/
def InRound (s : Session) (name : Name) (a k : Int64) (b : Number) (last : Nat) (c : Int64)
    (line : Nat) (t : Session) : Prop :=
  ∃ vars, t.Runs s.program line (s.outside.above (s.loopFrame name a c k b last)) vars ∧
    vars.depth = s.depth ∧ vars.peek name = .counted c (Kind.ofName name)

theorem AtFor.inRound (h : s.AtFor name a k b last)
    (hin : (Number.integer a).within b (.integer k) = true)
    (hroom : s.outside.items.length < s.frames.limit) (ht : s.Follows t) :
    InRound s name a k b last a (s.line + 1) t :=
  ⟨_, (h.enters hin hroom).follows ht, Variables.depth_put .., Variables.peek_put ..⟩

theorem InRound.onward {st : Statement} (h : InRound s name a k b last c line t)
    (hst : s.program.statement? line = some st) (hs : st.isSteady = true) (hspare : t.Spares name)
    (ht : t.Follows t') : InRound s name a k b last c (line + 1) t' := by
  obtain ⟨vars, hruns, hdepth, hpeek⟩ := h
  obtain ⟨st', flow, u, hst', hx, hkeep⟩ := hspare
  rw [hruns.program, hruns.line] at hst'
  cases hst.symm.trans hst'
  rw [hruns.program] at hx
  obtain ⟨hstep, hdeep⟩ := hruns.onward hst hs hx
  refine ⟨_, hstep.follows ht, hdeep.trans hdepth, ?_⟩
  rw [hkeep, hruns.variables, hpeek]

theorem InRound.print {text : String} (h : InRound s name a k b last c line t)
    (hst : s.program.statement? line = some (.print [.expression (.string text)]))
    (ht : t.Follows t') : InRound s name a k b last c (line + 1) t' := by
  have hprint : t.program.statement? t.line = some (.print [.expression (.string text)]) := by
    obtain ⟨vars, hruns, _⟩ := h
    rw [hruns.program, hruns.line]
    exact hst
  exact h.onward hst rfl (spares_print hprint name) ht

/-- NEXT starts another round or leaves the loop. -/
theorem InRound.turn (h : InRound s name a k b last c last t) (hs : s.AtFor name a k b last)
    (ht : t.Follows t') :
    (Run.goesAround c k b = true → InRound s name a k b last (Integer.add c k) (s.line + 1) t') ∧
      (Run.goesAround c k b = false → ∃ vars, t'.Runs s.program (last + 1) s.outside vars) := by
  obtain ⟨vars, hruns, hdepth, hpeek⟩ := h
  have hplace : (s.outside.above (s.loopFrame name a c k b last)).place? s.line vars.depth =
      some s.outside.items.length := by
    rw [hdepth]
    exact s.outside.place?_above (s.loopFrame name a c k b last)
  have hbelow : (s.outside.above (s.loopFrame name a c k b last)).truncate
      s.outside.items.length = s.outside := by
    rw [← Frames.leave_of_some _ hplace, hdepth]
    exact s.outside.leave_above (s.loopFrame name a c k b last)
  have hstep := hs.turns hruns hplace (s.outside.get?_above _) hpeek
  refine ⟨fun hgo => ?_, fun hgo => ?_⟩
  · rw [if_pos hgo, if_pos hgo, hbelow] at hstep
    exact ⟨_, hstep.follows ht, (Variables.depth_put ..).trans hdepth, Variables.peek_put ..⟩
  · rw [hgo, if_neg (by simp), if_neg (by simp), hbelow] at hstep
    exact ⟨_, hstep.follows ht⟩

end Round

/-! ## Whole loops -/

/-- A run from a FOR line with INTEGER bounds and an INTEGER variable, whose NEXT stands
`m` lines below. Only plain statements stand between the two. Until the loop is left they
succeed and leave the variable as it is. -/
structure Loops (σ : Nat → Session) (name : Name) (a b k : Int64) (m : Nat) : Prop where
  follows : ∀ n, (σ n).Follows (σ (n + 1))
  start : (σ 0).AtFor name a k (.integer b) ((σ 0).line + m)
  kind : Kind.ofName name = .integer
  room : (σ 0).outside.items.length < (σ 0).frames.limit
  plain : ∀ i, 0 < i → i < m →
    ∃ st, (σ 0).program.statement? ((σ 0).line + i) = some st ∧ st.isSteady = true
  quiet : ∀ n, (∀ i ≤ n, (σ 0).line < (σ (1 + i)).line ∧ (σ (1 + i)).line ≤ (σ 0).line + m) →
    (σ (1 + n)).line < (σ 0).line + m → (σ (1 + n)).Spares name

namespace Loops

variable {σ : Nat → Session} {name : Name} {a b k : Int64} {m : Nat}

theorem pos (h : Loops σ name a b k m) : 0 < m := by
  obtain ⟨level, hspan⟩ := h.start.spans
  have := hspan.lt
  omega

/-- `n` steps after it was entered, the loop is in its round `n / m` and has done
`n % m` lines of it. -/
theorem inRound (h : Loops σ name a b k m) (n : Nat)
    (hn : n < rounds a.toInt b.toInt k.toInt * m) :
    InRound (σ 0) name a k (.integer b) ((σ 0).line + m) (Integer.stepped a k (n / m))
      ((σ 0).line + (n % m + 1)) (σ (1 + n)) := by
  have hm := h.pos
  induction n using Nat.strongRecOn with
  | ind n ih =>
    cases n with
    | zero =>
      rw [Nat.zero_div, Nat.zero_mod, Integer.stepped_zero]
      have hpos : 0 < rounds a.toInt b.toInt k.toInt := Nat.pos_of_mul_pos_right hn
      exact h.start.inRound (within_start h.start.moves hpos) h.room (h.follows 0)
    | succ n =>
      have hnow := ih n (Nat.lt_succ_self n) (by omega)
      have hnext : (σ (1 + n)).Follows (σ (1 + (n + 1))) := h.follows (1 + n)
      have hsplit := Nat.div_add_mod n m
      have hlt := Nat.mod_lt n hm
      rcases Nat.lt_or_ge (n % m + 1) m with hin | hend
      · -- A line of the body.
        have hpart : n + 1 = m * (n / m) + (n % m + 1) := by omega
        have hdiv : (n + 1) / m = n / m := by
          rw [hpart, Nat.mul_add_div hm, Nat.div_eq_of_lt hin, Nat.add_zero]
        have hmod : (n + 1) % m = n % m + 1 := by
          rw [hpart, Nat.mul_add_mod, Nat.mod_eq_of_lt hin]
        rw [hdiv, hmod]
        obtain ⟨st, hst, hsteady⟩ := h.plain (n % m + 1) (Nat.succ_pos _) hin
        refine hnow.onward hst hsteady (h.quiet n (fun i hi => ?_) ?_) hnext
        · obtain ⟨_, hruns, _⟩ := ih i (by omega) (by omega)
          have := Nat.mod_lt i hm
          rw [hruns.line]
          omega
        · obtain ⟨_, hruns, _⟩ := hnow
          rw [hruns.line]
          omega
      · -- NEXT.
        have hpart : n + 1 = m * (n / m + 1) := by
          rw [Nat.mul_succ]
          omega
        have hdiv : (n + 1) / m = n / m + 1 := by rw [hpart, Nat.mul_div_cancel_left _ hm]
        have hmod : (n + 1) % m = 0 := by rw [hpart, Nat.mul_mod_right]
        have hround : n / m + 1 < rounds a.toInt b.toInt k.toInt := by
          rw [hpart, Nat.mul_comm] at hn
          exact Nat.lt_of_mul_lt_mul_right hn
        rw [hdiv, hmod, ← Integer.add_stepped]
        rw [show n % m + 1 = m by omega] at hnow
        exact (hnow.turn h.start hnext).1 (goesAround_of_lt h.start.moves hround)

/-- After its rounds a loop is left if it has noticed; otherwise one more round begins. -/
theorem last (h : Loops σ name a b k m) :
    (Noticed a b k → ∃ vars, (σ (1 + rounds a.toInt b.toInt k.toInt * m)).Runs (σ 0).program
      ((σ 0).line + m + 1) (σ 0).outside vars) ∧
    (¬ Noticed a b k → InRound (σ 0) name a k (.integer b) ((σ 0).line + m)
      (Integer.stepped a k (rounds a.toInt b.toInt k.toInt)) ((σ 0).line + 1)
      (σ (1 + rounds a.toInt b.toInt k.toInt * m))) := by
  have hm := h.pos
  cases hn : rounds a.toInt b.toInt k.toInt with
  | zero =>
    rw [Nat.zero_mul, Integer.stepped_zero]
    refine ⟨fun hd => ?_, fun hd => ?_⟩
    · have hout : (Number.integer a).within (.integer b) (.integer k) = false := by
        rw [← Bool.not_eq_true, within_none hn]
        exact not_not_intro hd
      exact ⟨_, (h.start.passes hout).follows (h.follows 0)⟩
    · exact h.start.inRound ((within_none hn).2 hd) h.room (h.follows 0)
  | succ n =>
    have hindex : n * m + (m - 1) + 1 = (n + 1) * m := by
      rw [Nat.succ_mul]
      omega
    have hnow := h.inRound (n * m + (m - 1)) (by rw [hn]; omega)
    have hnext : (σ (1 + (n * m + (m - 1)))).Follows (σ (1 + (n + 1) * m)) :=
      hindex ▸ h.follows (1 + (n * m + (m - 1)))
    rw [Nat.mul_comm n m, Nat.mul_add_div hm, Nat.mul_add_mod, Nat.div_eq_of_lt (by omega),
      Nat.mod_eq_of_lt (by omega), Nat.sub_add_cancel hm, Nat.mul_comm m n] at hnow
    obtain ⟨hagain, hleave⟩ := hnow.turn h.start hnext
    refine ⟨fun hd => hleave ?_, fun hd => ?_⟩
    · rw [← Bool.not_eq_true, Nat.add_zero, goesAround_last hn.symm]
      exact not_not_intro hd
    · rw [← Integer.add_stepped]
      exact hagain ((goesAround_last hn.symm).2 hd)

end Loops

section

variable {σ : Nat → Session} {name : Name} {a b k : Int64} {m : Nat}

/-- A FOR loop makes at least the rounds that its bounds ask for, each with its own
value of the variable. It is then left, unless rounding hides that it has passed its
limit; in that case another round begins. -/
theorem a_loop_makes_the_rounds_of_its_bounds (h : Loops σ name a b k m) :
    let n := rounds a.toInt b.toInt k.toInt
    (∀ j < n, ∀ r < m, (σ (1 + (j * m + r))).line = (σ 0).line + (r + 1) ∧
      ∃ c : Int64, c.toInt = a.toInt + j * k.toInt ∧
        (σ (1 + (j * m + r))).memory.variables.peek name = .integer c) ∧
    (Noticed a b k → (σ (1 + n * m)).line = (σ 0).line + m + 1 ∧
      (σ (1 + n * m)).stopped = false ∧ (σ (1 + n * m)).frames = (σ 0).outside) ∧
    (¬ Noticed a b k → (σ (1 + n * m)).line = (σ 0).line + 1 ∧
      (σ (1 + n * m)).memory.variables.peek name = .integer (Integer.stepped a k n)) := by
  have hm := h.pos
  obtain ⟨hleave, hagain⟩ := h.last
  refine ⟨fun j hj r hr => ?_, fun hd => ?_, fun hd => ?_⟩
  · have hlt : j * m + r < rounds a.toInt b.toInt k.toInt * m := by
      have := Nat.mul_le_mul_right m hj
      rw [Nat.succ_mul] at this
      omega
    obtain ⟨vars, hruns, _, hpeek⟩ := h.inRound _ hlt
    rw [Nat.mul_comm j m, Nat.mul_add_div hm, Nat.div_eq_of_lt hr, Nat.add_zero, h.kind] at hpeek
    refine ⟨?_, Integer.stepped a k j, toInt_stepped_of_lt h.start.moves hj, ?_⟩
    · rw [hruns.line, Nat.mul_comm j m, Nat.mul_add_mod, Nat.mod_eq_of_lt hr]
    · rw [hruns.variables]
      exact hpeek
  · obtain ⟨vars, hruns⟩ := hleave hd
    exact ⟨hruns.line, hruns.running, hruns.frames⟩
  · obtain ⟨vars, hruns, _, hpeek⟩ := hagain hd
    refine ⟨hruns.line, ?_⟩
    rw [hruns.variables, hpeek, h.kind]
    rfl

/-- A run whose loop has one PRINT between FOR and NEXT. -/
theorem loops_print {head : Statement} {text : String} {s : Session} (hline : s.line = 0)
    (hp : s.program.lines = [⟨0, head⟩, ⟨1, .print [.expression (.string text)]⟩, ⟨0, .next none⟩])
    (h : s.AtFor name a k (.integer b) 2) (hkind : Kind.ofName name = .integer)
    (hroom : s.outside.items.length < s.frames.limit) :
    Loops (fun n => Nat.repeat (fun t : Session => t.step.2) n s) name a b k 2 := by
  have hprogram : ∀ n, (Nat.repeat (fun t : Session => t.step.2) n s).program = s.program := by
    intro n
    induction n with
    | zero => rfl
    | succ n ih => exact (program_step _).trans ih
  have hstatement : ∀ l, 0 < l → l < 2 →
      s.program.statement? l = some (.print [.expression (.string text)]) := by
    intro l hl hlt
    obtain rfl : l = 1 := by omega
    unfold Program.statement? Program.line?
    rw [hp]
    rfl
  refine ⟨fun n => ⟨_, _, _, rfl⟩, ?_, hkind, hroom, fun i hi him => ?_, fun n hn hlt => ?_⟩
  · rw [show (Nat.repeat (fun t : Session => t.step.2) 0 s).line = 0 from hline]
    exact h
  · refine ⟨.print [.expression (.string text)], ?_, rfl⟩
    rw [show (Nat.repeat (fun t : Session => t.step.2) 0 s).line = 0 from hline, Nat.zero_add]
    exact hstatement i hi him
  · have hlow := (hn n (Nat.le_refl n)).1
    rw [show (Nat.repeat (fun t : Session => t.step.2) 0 s).line = 0 from hline] at hlow hlt
    have hprint := hstatement _ hlow (by omega)
    rw [← hprogram] at hprint
    exact spares_print hprint name

/-- From 5 down to 0 by 2 there are three rounds, with 5, 3 and 1. -/
theorem a_loop_makes_three_rounds_down :
    let p := Program.ofLines [⟨0, .for ⟨['i', '%']⟩ (.integer 5) (.integer 0) (some (.integer (-2)))⟩,
      ⟨1, .print [.expression (.string "x")]⟩, ⟨0, .next none⟩]
    let σ := fun n => Nat.repeat (fun t : Session => t.step.2) n (Session.start p 7 {})
    Loops σ ⟨['i', '%']⟩ 5 0 (-2) 2 ∧ rounds 5 0 (-2) = 3 ∧ (σ 7).line = 3 ∧
      (σ 7).frames = (σ 0).frames ∧
      ∃ c : Int64, c.toInt = 1 ∧ (σ 5).memory.variables.peek ⟨['i', '%']⟩ = .integer c := by
  intro p σ
  have h : Loops σ ⟨['i', '%']⟩ 5 0 (-2) 2 :=
    loops_print rfl rfl ⟨rfl, ⟨_, _, _, _, rfl, rfl⟩, rfl, rfl, by decide⟩ rfl (by decide +kernel)
  have hn : rounds (5 : Int64).toInt (0 : Int64).toInt (-2 : Int64).toInt = 3 := by decide
  have hall := a_loop_makes_the_rounds_of_its_bounds h
  dsimp only at hall
  rw [hn] at hall
  obtain ⟨hrounds, hend, _⟩ := hall
  obtain ⟨_, c, hc, hpeek⟩ := hrounds 2 (by decide) 0 (by decide)
  obtain ⟨hline, _, hframes⟩ := hend (noticed_of_small (by decide) (by decide) (by decide) (by decide))
  have hout : (σ 0).outside = (σ 0).frames := Frames.leave_of_none _ rfl
  have hzero : (σ 0).line = 0 := rfl
  norm_num only [hzero, hout] at hline hframes hpeek
  exact ⟨h, hn, hline, hframes, c, hc.trans (by decide), hpeek⟩

/-- As REALs the start and the limit of this loop are equal, so a loop that should make
no round is entered. -/
theorem a_loop_is_entered_past_its_limit :
    let p := Program.ofLines [⟨0, .for ⟨['i', '%']⟩ (.integer 9007199254740993)
      (.integer 9007199254740992) none⟩, ⟨1, .print [.expression (.string "x")]⟩, ⟨0, .next none⟩]
    let σ := fun n => Nat.repeat (fun t : Session => t.step.2) n (Session.start p 7 {})
    Loops σ ⟨['i', '%']⟩ 9007199254740993 9007199254740992 1 2 ∧
      rounds 9007199254740993 9007199254740992 1 = 0 ∧ (σ 1).line = 1 ∧ (σ 1).frames.size = 1 := by
  intro p σ
  refine ⟨loops_print rfl rfl ⟨rfl, ⟨_, _, _, _, rfl, rfl⟩, rfl, rfl, by decide⟩ rfl
    (by decide +kernel), by decide, by decide +kernel, by decide +kernel⟩

end

end Session

end LineBasic
