-- The tests of a CASE and the comparison operators of expressions. Both go by the order of
-- two values. An operator that needs more than equality refuses a COMPLEX value before it
-- compares, and a test does not; in everything else they agree.
import LineBasic.Proofs.Reading

namespace LineBasic

/-! ## Operators -/

/-- The operator that a CASE relation is spelled like. -/
def caseOperator? : String → Option BinaryOperator
  | "=" => some .equal
  | "<>" => some .notEqual
  | "<" => some .less
  | ">" => some .greater
  | "<=" => some .lessEqual
  | ">=" => some .greaterEqual
  | _ => none

/-- The operator asks which of two values comes first. -/
def BinaryOperator.needsOrder : BinaryOperator → Bool
  | .less | .greater | .lessEqual | .greaterEqual => true
  | _ => false

namespace Value

theorem ofBool_inj {a b : Bool} : ofBool a = ofBool b ↔ a = b := by
  simp only [ofBool, Value.integer.injEq]
  cases a <;> cases b <;> decide

theorem ordered_eq_compare {v w : Value} (hv : v.kind ≠ .complex) (hw : w.kind ≠ .complex) :
    ordered v w = v.compare w := by
  cases v with
  | complex z => exact absurd rfl hv
  | integer | real | string | array | record =>
    cases w with
    | complex z => exact absurd rfl hw
    | integer | real | string | array | record => rfl

theorem ordered_of_complex {v w : Value} (h : v.kind = .complex ∨ w.kind = .complex) :
    ordered v w = .error Error.complexUnordered := by
  cases v with
  | complex z => rfl
  | integer | real | string | array | record =>
    cases w with
    | complex z => rfl
    | integer | real | string | array | record => simp [kind] at h

/-- A test goes through where its operator refuses: two values, one of them COMPLEX, that
can be compared for equality are to be put in order. -/
def Slips (o : BinaryOperator) (v w : Value) : Prop :=
  o.needsOrder = true ∧ (v.kind = .complex ∨ w.kind = .complex) ∧ ∃ order, v.compare w = .ok order

/-- What a CASE relation comes to for two values. -/
def related (op : String) (v w : Value) : Except Error Bool := do
  Run.relationHolds (← v.compare w) op

end Value

/-- A test and an operator come to the same truth, or both fail. -/
structure Concur (test : Except Error Bool) (result : Except Error Value) : Prop where
  truth : ∀ b, test = .ok b ↔ result = .ok (.ofBool b)
  failure : (∃ e, test = .error e) ↔ ∃ e, result = .error e

theorem concur_map (test : Except Error Bool) : Concur test (test.map Value.ofBool) := by
  cases test with
  | ok a =>
    refine ⟨fun b => ?_, by simp [Except.map]⟩
    simp only [Except.map, Except.ok.injEq, Value.ofBool_inj]
  | error e => exact ⟨fun b => by simp [Except.map], by simp [Except.map]⟩

theorem concur_errors (e e' : Error) : Concur (.error e) (.error e') :=
  ⟨fun b => by simp, by simp⟩

namespace Value

variable {op : String} {o : BinaryOperator} {v w : Value}

/-- A relation that needs no order, or is between values that have one, is its operator. -/
theorem apply_eq_related (hop : caseOperator? op = some o)
    (h : o.needsOrder = true → v.kind ≠ .complex ∧ w.kind ≠ .complex) :
    o.apply v w = (related op v w).map ofBool := by
  have hsame : o.needsOrder = true → ordered v w = v.compare w :=
    fun ho => ordered_eq_compare (h ho).1 (h ho).2
  unfold caseOperator? at hop
  unfold related
  split at hop <;> cases hop
  · simp only [BinaryOperator.apply, equal, Run.relationHolds]
    cases v.compare w <;> rfl
  · simp only [BinaryOperator.apply, notEqual, Run.relationHolds]
    cases v.compare w <;> rfl
  · simp only [BinaryOperator.apply, less, hsame rfl, Run.relationHolds]
    cases v.compare w <;> rfl
  · simp only [BinaryOperator.apply, greater, hsame rfl, Run.relationHolds]
    cases v.compare w <;> rfl
  · simp only [BinaryOperator.apply, lessEqual, hsame rfl, Run.relationHolds]
    cases v.compare w <;> rfl
  · simp only [BinaryOperator.apply, greaterEqual, hsame rfl, Run.relationHolds]
    cases v.compare w <;> rfl

/-- An operator that needs an order refuses COMPLEX values. -/
theorem apply_of_complex (ho : o.needsOrder = true) (h : v.kind = .complex ∨ w.kind = .complex) :
    o.apply v w = .error Error.complexUnordered := by
  cases o with
  | less => simp only [BinaryOperator.apply, less, ordered_of_complex h]; rfl
  | greater => simp only [BinaryOperator.apply, greater, ordered_of_complex h]; rfl
  | lessEqual => simp only [BinaryOperator.apply, lessEqual, ordered_of_complex h]; rfl
  | greaterEqual => simp only [BinaryOperator.apply, greaterEqual, ordered_of_complex h]; rfl
  | _ => cases ho

/-- A relation with a known sign never fails on an order. -/
theorem related_of_compare {order : Option Ordering} (hop : caseOperator? op = some o)
    (h : v.compare w = .ok order) : ∃ b, related op v w = .ok b := by
  unfold caseOperator? at hop
  unfold related
  rw [h]
  split at hop <;> cases hop <;> exact ⟨_, rfl⟩

/-- A relation and its operator agree, except where the relation slips. -/
theorem concur_related_iff (hop : caseOperator? op = some o) :
    Concur (related op v w) (o.apply v w) ↔ ¬ Slips o v w := by
  constructor
  · rintro hc ⟨ho, hkinds, order, horder⟩
    obtain ⟨b, hb⟩ := related_of_compare hop horder
    obtain ⟨e, he⟩ := hc.failure.2 ⟨_, apply_of_complex ho hkinds⟩
    cases hb.symm.trans he
  · intro hslip
    by_cases hc : o.needsOrder = true ∧ (v.kind = .complex ∨ w.kind = .complex)
    · rw [apply_of_complex hc.1 hc.2]
      cases hcompare : v.compare w with
      | ok order => exact absurd ⟨hc.1, hc.2, order, hcompare⟩ hslip
      | error e =>
        unfold related
        rw [hcompare]
        exact concur_errors e _
    · rw [apply_eq_related hop fun ho => not_or.1 fun hk => hc ⟨ho, hk⟩]
      exact concur_map _

theorem equal_eq (v w : Value) :
    v.equal w = (v.compare w).map fun order => ofBool (order = some .eq) := by
  unfold equal
  cases v.compare w <;> rfl

end Value

/-! ## Tests -/

namespace Run

variable {α β : Type} {p : Program} {s : State} {selector : Value}

theorem outcomeOf_ofExcept_bind (r : Except Error α) (f : α → Run β) :
    outcomeOf ((ofExcept r >>= f) p s) = r >>= fun a => outcomeOf (f a p s) := by
  cases r <;> rfl

theorem outcomeOf_ofExcept (r : Except Error α) : outcomeOf (ofExcept r p s) = r := by
  cases r <;> rfl

theorem exists_of_outcomeOf {x : Run α} {a : α} (h : outcomeOf (x p s) = .ok a) :
    ∃ t, x p s = .ok a t := by
  cases hx : x p s with
  | ok b t =>
    rw [hx] at h
    cases h
    exact ⟨t, rfl⟩
  | error e t =>
    rw [hx] at h
    cases h

/-- Expressions are evaluated from left to right. -/
theorem exists_of_evaluateAll {e : Expression} {es : List Expression} {vs : List Value}
    (h : outcomeOf (observe (evaluateAll (e :: es)) p s) = .ok vs) :
    ∃ v rest t, vs = v :: rest ∧ value e p s = .ok v t ∧
      outcomeOf (observe (evaluateAll es) p t) = .ok rest := by
  unfold value observe State.observe at *
  unfold evaluateAll at h
  cases hv : evaluate e s.view s.memory.trail with
  | error err t =>
    rw [bind_of_error hv] at h
    cases h
  | ok v t =>
    rw [bind_of_ok hv] at h
    cases hvs : evaluateAll es s.view t with
    | error err t' =>
      rw [bind_of_error hvs] at h
      cases h
    | ok rest t' =>
      rw [bind_of_ok hvs] at h
      cases h
      refine ⟨v, rest, s.withTrail t, rfl, rfl, ?_⟩
      have hvs' : evaluateAll es (s.withTrail t).view (s.withTrail t).memory.trail =
        .ok rest t' := hvs
      rw [hvs']
      rfl

theorem outcomeOf_relation {op : String} {e : Expression} {v : Value}
    (hv : outcomeOf (value e p s) = .ok v) :
    outcomeOf (caseMatches selector (.relation op e) p s) = Value.related op selector v := by
  obtain ⟨t, ht⟩ := exists_of_outcomeOf hv
  change outcomeOf ((value e >>= fun v => ofExcept (selector.compare v) >>= fun order =>
    ofExcept (relationHolds order op)) p s) = _
  rw [bind_of_ok ht, outcomeOf_ofExcept_bind]
  simp only [outcomeOf_ofExcept]
  rfl

theorem outcomeOf_range {low high : Expression} {l h : Value}
    (hvs : outcomeOf (observe (evaluateAll [low, high]) p s) = .ok [l, h]) :
    outcomeOf (caseMatches selector (.range low high) p s) = (do
      let above ← Value.related ">=" selector l
      let below ← Value.related "<=" selector h
      return above && below) := by
  obtain ⟨_, _, t, heq, ht, hvs⟩ := exists_of_evaluateAll hvs
  cases heq
  obtain ⟨_, _, u, heq, hu, -⟩ := exists_of_evaluateAll hvs
  cases heq
  change outcomeOf ((value low >>= fun l => value high >>= fun h =>
    ofExcept (selector.compare l) >>= fun above => ofExcept (selector.compare h) >>= fun below =>
      pure ((above = some .gt || above = some .eq) &&
        (below = some .lt || below = some .eq))) p s) = _
  rw [bind_of_ok ht, bind_of_ok hu, outcomeOf_ofExcept_bind]
  simp only [outcomeOf_ofExcept_bind]
  unfold Value.related
  cases selector.compare l with
  | error e => rfl
  | ok above => cases selector.compare h <;> rfl

/-- A list of values is gone through as far as the first that equals the selector. -/
theorem outcomeOf_values {es : List Expression} {vs : List Value}
    (hvs : outcomeOf (observe (evaluateAll es) p s) = .ok vs) :
    outcomeOf (caseMatches selector (.values es) p s) = .ok true ↔
      ∃ before v after, vs = before ++ v :: after ∧
        (∀ u ∈ before, selector.equal u = .ok (.ofBool false)) ∧
        selector.equal v = .ok (.ofBool true) := by
  change outcomeOf (matchesOne selector es p s) = .ok true ↔ _
  induction es generalizing s vs with
  | nil =>
    cases hvs
    refine ⟨fun h => (by cases h), ?_⟩
    rintro ⟨before, v, after, hsplit, -⟩
    simp at hsplit
  | cons e es ih =>
    obtain ⟨v, rest, t, rfl, ht, hrest⟩ := exists_of_evaluateAll hvs
    have hrun : outcomeOf (matchesOne selector (e :: es) p s) =
        selector.compare v >>= fun order =>
          if order = some .eq then .ok true else outcomeOf (matchesOne selector es p t) := by
      change outcomeOf ((value e >>= fun v => ofExcept (selector.compare v) >>= fun order =>
        if order = some .eq then pure true else matchesOne selector es) p s) = _
      rw [bind_of_ok ht, outcomeOf_ofExcept_bind]
      cases selector.compare v with
      | error err => rfl
      | ok order =>
        change outcomeOf ((if order = some .eq then pure true else matchesOne selector es) p t) =
          if order = some .eq then .ok true else outcomeOf (matchesOne selector es p t)
        split <;> rfl
    rw [hrun]
    -- The first value equals the selector, or the rest decides, or nothing is decided.
    have hequal := selector.equal_eq v
    cases hcompare : selector.compare v with
    | error err =>
      refine ⟨fun h => (by cases h), ?_⟩
      rw [hcompare] at hequal
      rintro ⟨before, w, after, hsplit, hbefore, hw⟩
      cases before with
      | nil =>
        cases hsplit
        cases hequal.symm.trans hw
      | cons u before =>
        cases hsplit
        cases hequal.symm.trans (hbefore _ List.mem_cons_self)
    | ok order =>
      rw [hcompare] at hequal
      by_cases horder : order = some .eq
      · subst horder
        refine ⟨fun _ => ⟨[], v, rest, rfl, fun u hu => ?_, hequal⟩, fun _ => rfl⟩
        cases hu
      · have hfalse : selector.equal v = .ok (.ofBool false) := by
          rw [hequal]
          simp [Except.map, horder]
        change (if order = some .eq then .ok true else outcomeOf (matchesOne selector es p t)) =
          Except.ok true ↔ _
        rw [if_neg horder, ih hrest]
        constructor
        · rintro ⟨before, w, after, rfl, hbefore, hw⟩
          exact ⟨v :: before, w, after, rfl, List.forall_mem_cons.2 ⟨hfalse, hbefore⟩, hw⟩
        · rintro ⟨before, w, after, hsplit, hbefore, hw⟩
          cases before with
          | nil =>
            cases hsplit
            cases hfalse.symm.trans hw
          | cons u before =>
            cases hsplit
            exact ⟨before, w, after, rfl, (List.forall_mem_cons.1 hbefore).2, hw⟩

end Run

/-- The tests of a CASE agree with the operators. A relation comes to the truth that its
operator comes to and fails with it, exactly if it does not slip; a list of values matches at
the first that equals the selector, if all before it can be compared and are unequal; and a
range matches if both of its ends do, and fails if one of them does. -/
theorem case_tests_agree_with_the_operators (p : Program) (s : State) (selector : Value) :
    (∀ op o e v, caseOperator? op = some o → outcomeOf (Run.value e p s) = .ok v →
      (Concur (outcomeOf (Run.caseMatches selector (.relation op e) p s)) (o.apply selector v) ↔
        ¬ Value.Slips o selector v)) ∧
    (∀ es vs, outcomeOf (Run.observe (evaluateAll es) p s) = .ok vs →
      (outcomeOf (Run.caseMatches selector (.values es) p s) = .ok true ↔
        ∃ before v after, vs = before ++ v :: after ∧
          (∀ u ∈ before, selector.equal u = .ok (.ofBool false)) ∧
          selector.equal v = .ok (.ofBool true))) ∧
    ∀ low high l h, outcomeOf (Run.observe (evaluateAll [low, high]) p s) = .ok [l, h] →
      ¬ Value.Slips .greaterEqual selector l → ¬ Value.Slips .lessEqual selector h →
      (outcomeOf (Run.caseMatches selector (.range low high) p s) = .ok true ↔
        selector.greaterEqual l = .ok (.ofBool true) ∧ selector.lessEqual h = .ok (.ofBool true)) ∧
      ((∃ e, outcomeOf (Run.caseMatches selector (.range low high) p s) = .error e) ↔
        (∃ e, selector.greaterEqual l = .error e) ∨ ∃ e, selector.lessEqual h = .error e) := by
  refine ⟨fun op o e v hop hv => ?_, fun es vs hvs => Run.outcomeOf_values hvs,
    fun low high l h hvs hl hh => ?_⟩
  · rw [Run.outcomeOf_relation hv]
    exact Value.concur_related_iff hop
  · have above : Concur (Value.related ">=" selector l) (selector.greaterEqual l) :=
      (Value.concur_related_iff rfl).2 hl
    have below : Concur (Value.related "<=" selector h) (selector.lessEqual h) :=
      (Value.concur_related_iff rfl).2 hh
    rw [Run.outcomeOf_range hvs, ← above.truth, ← below.truth, ← above.failure, ← below.failure]
    cases Value.related ">=" selector l with
    | error e =>
      exact ⟨⟨fun h => (by cases h), fun h => (by cases h.1)⟩, fun _ => Or.inl ⟨e, rfl⟩,
        fun _ => ⟨e, rfl⟩⟩
    | ok a =>
      cases Value.related "<=" selector h with
      | error e =>
        exact ⟨⟨fun h => (by cases h), fun h => (by cases h.2)⟩, fun _ => Or.inr ⟨e, rfl⟩,
          fun _ => ⟨e, rfl⟩⟩
      | ok b => cases a <;> cases b <;> simp [pure, Except.pure, bind, Except.bind]

theorem a_case_of_each_kind_agrees :
    let s : State := { memory := .ofSeed 7 }
    let five := Value.integer 5
    Concur (outcomeOf (Run.caseMatches five (.relation "<" (.real 7)) {} s)) (five.less (.real 7)) ∧
      outcomeOf (Run.caseMatches five (.values [.integer 1, .integer 5, .string "x"]) {} s) =
        .ok true ∧
      outcomeOf (Run.caseMatches five (.range (.integer 2) (.integer 7)) {} s) = .ok true := by
  intro s five
  obtain ⟨hrelation, hvalues, hrange⟩ := case_tests_agree_with_the_operators {} s five
  have hslip : ∀ o v, v.kind ≠ .complex → ¬ Value.Slips o five v := by
    rintro o v hv ⟨-, hk | hk, -⟩
    · cases hk
    · exact hv hk
  refine ⟨(hrelation "<" .less (.real 7) (.real 7) rfl rfl).2 (hslip _ _ nofun), ?_, ?_⟩
  · refine (hvalues _ [.integer 1, .integer 5, .string "x"] rfl).2
      ⟨[.integer 1], .integer 5, [.string "x"], rfl, fun u hu => ?_, rfl⟩
    cases List.mem_singleton.1 hu
    rfl
  · have h := hrange (.integer 2) (.integer 7) (.integer 2) (.integer 7) rfl (hslip _ _ nofun)
      (hslip _ _ nofun)
    exact h.1.2 ⟨rfl, rfl⟩

/-- A CASE puts two COMPLEX values in order, and the operator refuses them. -/
theorem a_case_orders_what_its_operator_refuses :
    let s : State := { memory := .ofSeed 7 }
    let z := Value.complex ⟨0, 1⟩
    let test := outcomeOf (Run.caseMatches z (.relation "<" (.imaginary 2)) {} s)
    outcomeOf (Run.value (.imaginary 2) {} s) = .ok (.complex ⟨0, 2⟩) ∧ test = .ok false ∧
      z.less (.complex ⟨0, 2⟩) = .error Error.complexUnordered ∧
      ¬ Concur test (z.less (.complex ⟨0, 2⟩)) := by
  intro s z test
  have htest : test = .ok false := rfl
  refine ⟨rfl, htest, rfl, fun h => ?_⟩
  cases (h.truth false).1 htest

end LineBasic
