-- A FOR loop that counts in INTEGERs ends, whatever its limit is. The frame of a loop
-- changes only at its own two lines, so between two NEXTs the counter stays as it is,
-- and each NEXT that goes around moves it in the direction of the step. There are only
-- so many INTEGERs, and at the end of the range the sum no longer moves.
import LineBasic.Proofs.Rounds

namespace LineBasic

/-! ## What changes the frame of a loop -/

section Kept

variable {p : Program} {c c' : Control} {st : Statement} {i : Nat} {f : Frame}

/-- A frame of a sound stack is the one that its line finds. -/
theorem Frames.Sound.place?_of_get? {fs : Frames} {depth : Nat} (h : fs.Sound p depth)
    (hf : fs.get? i = some f) : fs.place? f.first f.depth = some i := by
  obtain ⟨hi, hfi⟩ := List.getElem?_eq_some_iff.1 hf
  cases hp : fs.place? f.first f.depth with
  | none => exact absurd ⟨rfl, rfl⟩ (fs.place?_eq_none hp f (List.mem_of_getElem? hf))
  | some j =>
    obtain ⟨g, hg, hfirst, hdepth, _⟩ := fs.place?_eq_some hp
    obtain ⟨hj, hgj⟩ := List.getElem?_eq_some_iff.1 hg
    have hdistinct := List.pairwise_iff_getElem.1 h.distinct
    rcases Nat.lt_trichotomy i j with hlt | rfl | hgt
    · refine absurd ?_ (hdistinct i j hi hj hlt)
      rw [hfi, hgj]
      exact ⟨hfirst.symm, hdepth.symm⟩
    · rfl
    · refine absurd ?_ (hdistinct j i hj hi hgt)
      rw [hfi, hgj]
      exact ⟨hfirst, hdepth⟩

/-- The frame of a loop after a move was there before, unless the move was made at the
first or the last line of the loop. -/
theorem Moves.loop_kept {flow : Flow} (hm : Moves p c st flow c') (hs : c.Sound p)
    (hst : p.statement? c.line = some st) (hf : c'.frames.get? i = some f) (hk : f.kind = .for) :
    c.frames.get? i = some f ∨ c.depth = f.depth ∧ (c.line = f.first ∨ c.line = f.last) := by
  cases hm with
  | onward | «return» | stop | goto | gosub | passSub | skipped | clause | finallyAlone
  | closedNothing => exact Or.inl hf
  | call _ _ _ he =>
    rcases Frames.get?_of_enter he hf with hf | rfl
    · exact Or.inl hf
    · cases hk
  | opened _ _ _ he _ _ =>
    rcases Frames.get?_of_enter he hf with hf | rfl
    · exact Or.inl hf
    · exact Or.inr ⟨rfl, Or.inl rfl⟩
  | passed | closed => exact Or.inl (Frames.get?_of_leave hf)
  | left | exit | toLast => exact Or.inl (Stack.get?_of_truncate hf).2
  | @tookClause _ _ _ _ state hr _ hkind _ =>
    rcases Frames.get?_of_modify hf with hf | ⟨rfl, g, _, rfl⟩
    · exact Or.inl hf
    · -- A FOR loop has no clauses.
      rw [show state.kind = .for from hk] at hkind
      cases st <;> first | (cases hr; done) | cases hkind
  | again hr hb hkeeps =>
    rcases Frames.get?_of_modify hf with hf | ⟨rfl, g, hg, rfl⟩
    · exact Or.inl (Stack.get?_of_truncate hf).2
    · cases (Stack.get?_of_truncate hg).2.symm.trans hb.frame
      exact Or.inr ⟨hb.depth_eq.symm,
        Or.inr (hb.line_eq_last hs hst (Statement.role_of_closesLoop hr).1)⟩

end Kept

namespace Session

variable {p : Program} {s t : Session} {i : Nat} {f : Frame}

/-- The frame of a loop after a step was there before, unless the step was made at the
first or the last line of the loop. -/
theorem loop_kept (hr : s.Regular p) (hrun : s.step.2.stopped = false)
    (hf : s.step.2.frames.get? i = some f) (hk : f.kind = .for) :
    s.frames.get? i = some f ∨ s.depth = f.depth ∧ (s.line = f.first ∨ s.line = f.last) := by
  have hall : ∀ f, s.step.2.control.frames.get? i = some f → f.kind = .for →
      s.frames.get? i = some f ∨ s.depth = f.depth ∧ (s.line = f.first ∨ s.line = f.last) := by
    refine control_step (P := fun c => ∀ f, c.frames.get? i = some f → f.kind = .for →
      s.frames.get? i = some f ∨ s.depth = f.depth ∧ (s.line = f.first ∨ s.line = f.last)) hr
      (fun st flow c l hst hm _ g hg hkind => ?_) (fun l _ g hg _ => ?_)
      (fun st e u j g b line new hfails hget hb _ h hh hkind => ?_) hrun
    · rw [depth, State.depth_control]
      exact hm.loop_kept hr.sound hst hg hkind
    · exact Or.inl (Frames.get?_of_unwind hg)
    · rcases Frames.get?_of_modify hh with hh | ⟨_, _, _, rfl⟩
      · -- What is left up to the TRY block was there before the statement failed.
        obtain ⟨_, hframes, _⟩ := hfails.resumed_eq hr hget
        change (u.frames.items.take (j + 1))[i]? = some h at hh
        rw [hframes] at hh
        exact Or.inl (Stack.get?_of_truncate (s := s.frames) hh).2
      · cases hkind
  exact hall f hf hk

/-! ## The life of a loop -/

/-- The sum of a counter and a step is past the counter, in the direction of the step. -/
def Ahead (c k : Int64) : Prop :=
  if k.toInt < 0 then (Integer.add c k).toInt < c.toInt else c.toInt < (Integer.add c k).toInt

theorem ahead_of_ne {c k : Int64} (h : Integer.add c k ≠ c) : Ahead c k := by
  have hne : (Integer.add c k).toInt ≠ c.toInt := fun heq => h (Int64.toInt_inj.1 heq)
  have hc := Integer.toInt_bounds c
  unfold Ahead
  rw [Integer.toInt_add] at hne ⊢
  split <;> omega

/-- The place of the loop that is entered at `s`. -/
def loopPlace (s : Session) : Nat := s.outside.items.length

/-- The program runs, the loop that it entered at `s` is on the stack, and it is not
about to enter it anew. -/
structure Keeps (s : Session) (last : Nat) (t : Session) : Prop where
  running : t.stopped = false
  away : ¬ (t.line = s.line ∧ t.depth = s.depth)
  loop : ∃ loop, t.frames.get? s.loopPlace = some ⟨s.line, last, s.depth, .for loop⟩

/-- The program is at the NEXT line of the loop, in the call that entered it. -/
def AtNext (s : Session) (last : Nat) (t : Session) : Prop := t.line = last ∧ t.depth = s.depth

instance (s : Session) (last : Nat) (t : Session) : Decidable (AtNext s last t) := by
  unfold AtNext
  infer_instance

/-- The loop that was entered at the first step has not been left for `n` more steps. -/
def Lives (σ : Nat → Session) (last n : Nat) : Prop := ∀ m ≤ n, Keeps (σ 0) last (σ (m + 1))

theorem Lives.of_le {σ : Nat → Session} {last m n : Nat} (h : Lives σ last n) (hm : m ≤ n) :
    Lives σ last m := fun i hi => h i (Nat.le_trans hi hm)

/-- How often NEXT was executed in the first `n` steps of the loop. -/
def laps (σ : Nat → Session) (last n : Nat) : Nat :=
  Nat.count (fun m => AtNext (σ 0) last (σ (m + 1))) n

theorem InRound.keeps {name : Name} {a k c : Int64} {b : Number} {line last : Nat}
    (h : InRound s name a k b last c line t) (hline : line ≠ s.line) : Keeps s last t := by
  obtain ⟨vars, hruns, _, _⟩ := h
  refine ⟨hruns.running, fun hat => hline (hruns.line.symm.trans hat.1),
    Run.countingLoop name a c b (.integer k), ?_⟩
  rw [hruns.frames]
  exact s.outside.get?_above _

/-- In a round the variable holds what the loop stored there. -/
theorem InRound.spared {name : Name} {a k c : Int64} {b : Number} {line last : Nat}
    (h : InRound s name a k b last c line t) (loop : ForLoop)
    (hloop : t.frames.get? s.loopPlace = some ⟨s.line, last, s.depth, .for loop⟩) :
    t.memory.variables.peek name = loop.assigned := by
  obtain ⟨vars, hruns, _, hpeek⟩ := h
  rw [hruns.frames] at hloop
  cases hloop.symm.trans (s.outside.get?_above _)
  rw [hruns.variables]
  exact hpeek

section Laps

variable {σ : Nat → Session} {last n : Nat}

theorem laps_zero : laps σ last 0 = 0 := Nat.count_zero _

theorem laps_succ (h : AtNext (σ 0) last (σ (n + 1))) :
    laps σ last (n + 1) = laps σ last n + 1 := by
  rw [laps, Nat.count_succ, if_pos h, laps]

theorem laps_eq (h : ¬ AtNext (σ 0) last (σ (n + 1))) : laps σ last (n + 1) = laps σ last n := by
  rw [laps, Nat.count_succ, if_neg h, Nat.add_zero, laps]

end Laps

/-- A run of a program from a FOR line with an INTEGER start and step. Whenever NEXT is
executed the variable holds what the loop stored there. -/
structure Circles (σ : Nat → Session) (name : Name) (a k : Int64) (b : Number) (last : Nat) :
    Prop where
  made : (σ 0).program.Made
  reachable : Reachable (σ 0).program (σ 0)
  follows : ∀ n, (σ n).Follows (σ (n + 1))
  start : (σ 0).AtFor name a k b last
  spared : ∀ n, Lives σ last n → AtNext (σ 0) last (σ (n + 1)) → ∀ loop,
    (σ (n + 1)).frames.get? (σ 0).loopPlace = some ⟨(σ 0).line, last, (σ 0).depth, .for loop⟩ →
    (σ (n + 1)).memory.variables.peek name = loop.assigned

namespace Circles

variable {σ : Nat → Session} {name : Name} {a k c : Int64} {b : Number} {last n : Nat}

theorem regular (h : Circles σ name a k b last) (n : Nat) : (σ n).Regular (σ 0).program := by
  induction n with
  | zero => exact reachable_regular h.made h.reachable
  | succ n ih =>
    obtain ⟨host, wakeAt, interrupted, heq⟩ := h.follows n
    have hnext := ih.step h.made
    rw [heq]
    exact ⟨hnext.program, hnext.sound, hnext.called⟩

/-- A loop that was just entered has counted to its start. -/
theorem enters (h : Circles σ name a k b last) (hlive : Keeps (σ 0) last (σ 1)) :
    (σ 1).frames.get? (σ 0).loopPlace = some ((σ 0).loopFrame name a a k b last) := by
  obtain ⟨loop, hloop⟩ := hlive.loop
  have hlt : (σ 0).loopPlace < (σ 1).frames.items.length := (List.getElem?_eq_some_iff.1 hloop).1
  cases hin : (Number.integer a).within b (.integer k) with
  | true =>
    have hroom : (σ 0).loopPlace < (σ 0).frames.limit := by
      have hsize := (h.regular 1).sound.frames.size
      have hlimit := (h.regular 0).sound.frames.limit
      rw [← State.frames_control] at hsize hlimit
      omega
    rw [((h.start.enters hin hroom).follows (h.follows 0)).frames]
    exact (σ 0).outside.get?_above _
  | false =>
    rw [((h.start.passes hin).follows (h.follows 0)).frames] at hlt
    exact absurd hlt (Nat.lt_irrefl _)

/-- At NEXT a loop that has counted to `c` goes around or is left. -/
theorem turns (h : Circles σ name a k b last) (hlive : Lives σ last n)
    (hnext : AtNext (σ 0) last (σ (n + 1)))
    (hget : (σ (n + 1)).frames.get? (σ 0).loopPlace =
      some ((σ 0).loopFrame name a c k b last)) :
    ((σ (n + 2)).line = (σ 0).line + 1 ∧ (σ (n + 2)).frames.get? (σ 0).loopPlace =
      some ((σ 0).loopFrame name a (Integer.add c k) k b last) ∧ Integer.add c k ≠ c) ∨
    ((σ (n + 2)).line = last + 1 ∧ (σ (n + 2)).stopped = false ∧
      (σ (n + 2)).frames = (σ (n + 1)).frames.truncate (σ 0).loopPlace) := by
  have hregular := h.regular (n + 1)
  have hruns : (σ (n + 1)).Runs (σ 0).program last (σ (n + 1)).frames
      (σ (n + 1)).memory.variables :=
    ⟨hregular.program, (hlive n (Nat.le_refl n)).running, hnext.1, rfl, rfl⟩
  have hplace := hregular.sound.frames.place?_of_get? hget
  have hdepth : (σ (n + 1)).memory.variables.depth = (σ 0).depth := hnext.2
  have hstep := (h.start.turns hruns (hdepth ▸ hplace) hget (h.spared n hlive hnext _ hget)).follows
    (h.follows (n + 1))
  cases hgo : Run.goesAround c k b with
  | true =>
    rw [hgo, if_pos rfl, if_pos rfl] at hstep
    unfold Run.goesAround at hgo
    rw [Bool.and_eq_true, decide_eq_true_eq] at hgo
    refine Or.inl ⟨hstep.line, ?_, hgo.1⟩
    have hlt : (σ 0).loopPlace < (σ (n + 1)).frames.items.length :=
      (List.getElem?_eq_some_iff.1 hget).1
    have hsize : ((σ (n + 1)).frames.truncate (σ 0).loopPlace).items.length = (σ 0).loopPlace := by
      rw [Stack.truncate_items, List.length_take]
      omega
    rw [hstep.frames]
    nth_rewrite 2 [← hsize]
    exact Frames.get?_above _ _
  | false =>
    rw [hgo, if_neg (by simp), if_neg (by simp)] at hstep
    exact Or.inr ⟨hstep.line, hstep.running, hstep.frames⟩

/-- A NEXT that keeps the loop on the stack moves its counter. -/
theorem goes_around (h : Circles σ name a k b last) (hlive : Lives σ last (n + 1))
    (hnext : AtNext (σ 0) last (σ (n + 1)))
    (hget : (σ (n + 1)).frames.get? (σ 0).loopPlace =
      some ((σ 0).loopFrame name a c k b last)) :
    (σ (n + 2)).frames.get? (σ 0).loopPlace =
      some ((σ 0).loopFrame name a (Integer.add c k) k b last) ∧ Integer.add c k ≠ c := by
  rcases h.turns (hlive.of_le (Nat.le_succ n)) hnext hget with ⟨_, hagain⟩ | ⟨_, _, hframes⟩
  · exact hagain
  · obtain ⟨loop, hloop⟩ := (hlive (n + 1) (Nat.le_refl _)).loop
    have hlt := (List.getElem?_eq_some_iff.1 hloop).1
    rw [hframes, Stack.truncate_items, List.length_take] at hlt
    omega

/-- While a loop lives it has counted to the sum of its laps. -/
theorem counts (h : Circles σ name a k b last) (hlive : Lives σ last n) :
    (σ (n + 1)).frames.get? (σ 0).loopPlace =
      some ((σ 0).loopFrame name a (Integer.stepped a k (laps σ last n)) k b last) := by
  induction n with
  | zero =>
    rw [laps_zero, Integer.stepped_zero]
    exact h.enters (hlive 0 (Nat.le_refl 0))
  | succ n ih =>
    have hget := ih (hlive.of_le (Nat.le_succ n))
    by_cases hnext : AtNext (σ 0) last (σ (n + 1))
    · rw [laps_succ hnext, ← Integer.add_stepped]
      exact (h.goes_around hlive hnext hget).1
    · -- Away from its own lines nothing changes the frame of the loop.
      rw [laps_eq hnext, ← hget]
      obtain ⟨hrun, _, loop, hloop⟩ := hlive (n + 1) (Nat.le_refl _)
      obtain ⟨host, wakeAt, interrupted, heq⟩ := h.follows (n + 1)
      rw [heq] at hrun hloop ⊢
      rcases loop_kept (h.regular (n + 1)) hrun hloop rfl with hkept | ⟨hdepth, hfirst | hlast⟩
      · exact hloop.trans hkept.symm
      · exact absurd ⟨hfirst, hdepth⟩ (hlive n (Nat.le_succ n)).away
      · exact absurd ⟨hlast, hdepth⟩ hnext

/-- The counter is at least as far from the start as there were laps. -/
theorem laps_le (h : Circles σ name a k b last) (hlive : Lives σ last n) :
    if k.toInt < 0 then (Integer.stepped a k (laps σ last n)).toInt + laps σ last n ≤ a.toInt
    else a.toInt + laps σ last n ≤ (Integer.stepped a k (laps σ last n)).toInt := by
  induction n with
  | zero =>
    rw [laps_zero, Integer.stepped_zero]
    simp
  | succ n ih =>
    have hbefore := hlive.of_le (Nat.le_succ n)
    have hfar := ih hbefore
    by_cases hnext : AtNext (σ 0) last (σ (n + 1))
    · have hahead := ahead_of_ne (h.goes_around hlive hnext (h.counts hbefore)).2
      unfold Ahead at hahead
      rw [laps_succ hnext, ← Integer.add_stepped]
      by_cases hk : k.toInt < 0
      · rw [if_pos hk] at hfar hahead ⊢
        omega
      · rw [if_neg hk] at hfar hahead ⊢
        omega
    · rwa [laps_eq hnext]

/-- There are not more laps than INTEGERs. -/
theorem laps_lt (h : Circles σ name a k b last) (hlive : Lives σ last n) :
    laps σ last n < 2 ^ 64 := by
  have hfar := h.laps_le hlive
  have ha := Integer.toInt_bounds a
  have hc := Integer.toInt_bounds (Integer.stepped a k (laps σ last n))
  unfold Real.least Real.greatest at ha hc
  split at hfar <;> omega

end Circles

/-- NEXT is executed only finitely often while a loop lives, and less than `2 ^ 64` times.
Each time it goes back to the body, with the counter moved in the direction of the step, or
it leaves the loop; and it leaves the loop if the step no longer moves the counter. -/
theorem an_integer_loop_ends {σ : Nat → Session} {name : Name} {a k : Int64} {b : Number}
    {last : Nat} (h : Circles σ name a k b last) :
    {n | Lives σ last n ∧ AtNext (σ 0) last (σ (n + 1))}.Finite ∧
    ∀ n, Lives σ last n → laps σ last n < 2 ^ 64 ∧
      (AtNext (σ 0) last (σ (n + 1)) → ∃ c : Int64,
        c.toInt = max Real.least (min (a.toInt + laps σ last n * k.toInt) Real.greatest) ∧
        (σ (n + 1)).frames.get? (σ 0).loopPlace = some ((σ 0).loopFrame name a c k b last) ∧
        ((σ (n + 2)).line = (σ 0).line + 1 ∧ (σ (n + 2)).frames.get? (σ 0).loopPlace =
            some ((σ 0).loopFrame name a (Integer.add c k) k b last) ∧ Ahead c k ∨
          (σ (n + 2)).line = last + 1 ∧ (σ (n + 2)).stopped = false ∧
            (σ (n + 2)).frames = (σ (n + 1)).frames.truncate (σ 0).loopPlace) ∧
        (Integer.add c k = c → (σ (n + 2)).line = last + 1)) := by
  refine ⟨?_, fun n hlive => ⟨h.laps_lt hlive, fun hnext => ?_⟩⟩
  · refine Set.Finite.of_injOn (f := laps σ last) (t := Set.Iio (2 ^ 64)) ?_ ?_ (Set.finite_Iio _)
    · exact fun n hn => h.laps_lt hn.1
    · exact fun m hm n hn heq => Nat.count_injective hm.2 hn.2 heq
  · have hget := h.counts hlive
    have hturn := h.turns hlive hnext hget
    refine ⟨_, Integer.toInt_stepped .., hget, ?_, fun hsame => ?_⟩
    · exact hturn.imp_left fun ⟨hline, hagain, hne⟩ => ⟨hline, hagain, ahead_of_ne hne⟩
    · rcases hturn with ⟨_, _, hne⟩ | hleft
      · exact absurd hsame hne
      · exact hleft.1

/-- A loop with no end in sight starts just below the greatest INTEGER. Its second NEXT
leaves it. -/
theorem a_loop_ends_at_the_greatest_integer :
    let p := Program.ofLines [⟨0, .for ⟨['x', '#']⟩ (.integer 9223372036854775806)
      (.real Real.infinity) none⟩, ⟨1, .print [.expression (.string "x")]⟩, ⟨0, .next none⟩]
    let σ := fun n => Nat.repeat (fun t : Session => t.step.2) n (Session.start p 7 {})
    Circles σ ⟨['x', '#']⟩ 9223372036854775806 1 (.real Real.infinity) 2 ∧ Lives σ 2 3 ∧
      laps σ 2 3 = 1 ∧ (σ 5).line = 3 := by
  intro p σ
  have hstart : (σ 0).AtFor ⟨['x', '#']⟩ 9223372036854775806 1 (.real Real.infinity) 2 :=
    ⟨rfl, ⟨_, _, _, _, rfl, rfl⟩, rfl, rfl, by decide⟩
  have hfollows : ∀ n, (σ n).Follows (σ (n + 1)) := fun n => ⟨_, _, _, rfl⟩
  have hin : ∀ n ≤ 3, ∃ c line, line ≠ (σ 0).line ∧ InRound (σ 0) ⟨['x', '#']⟩ 9223372036854775806 1
      (.real Real.infinity) 2 c line (σ (n + 1)) := by
    have h1 := hstart.inRound (by decide +kernel) (by decide +kernel) (hfollows 0)
    have h2 := h1.print rfl (hfollows 1)
    have h3 := (h2.turn hstart (hfollows 2)).1 (by decide +kernel)
    have h4 := h3.print rfl (hfollows 3)
    intro n hn
    match n with
    | 0 => exact ⟨_, _, by decide +kernel, h1⟩
    | 1 => exact ⟨_, _, by decide +kernel, h2⟩
    | 2 => exact ⟨_, _, by decide +kernel, h3⟩
    | 3 => exact ⟨_, _, by decide +kernel, h4⟩
  have hlives : Lives σ 2 3 := by
    intro m hm
    obtain ⟨c, line, hline, hround⟩ := hin m hm
    exact hround.keeps hline
  have hleft : ¬ Keeps (σ 0) 2 (σ 5) := by
    rintro ⟨_, _, loop, hloop⟩
    have hsize : (σ 5).frames.items.length = 0 := by decide +kernel
    have hlt := (List.getElem?_eq_some_iff.1 hloop).1
    omega
  have h : Circles σ ⟨['x', '#']⟩ 9223372036854775806 1 (.real Real.infinity) 2 := by
    refine ⟨.ofLines _, .start 7 {}, hfollows, hstart, fun n hlive _ => ?_⟩
    rcases Nat.lt_or_ge n 4 with hlt | hge
    · obtain ⟨c, line, _, hround⟩ := hin n (by omega)
      exact hround.spared
    · exact absurd (hlive 4 hge) hleft
  have hlaps : laps σ 2 3 = 1 := by decide +kernel
  refine ⟨h, hlives, hlaps, ?_⟩
  obtain ⟨c, hc, _, _, hstuck⟩ := ((an_integer_loop_ends h).2 3 hlives).2 (by decide +kernel)
  obtain rfl : c = Int64.maxValue := by
    rw [hlaps] at hc
    exact Int64.toInt_inj.1 (hc.trans (by decide))
  exact hstuck (by decide)

end Session

end LineBasic
