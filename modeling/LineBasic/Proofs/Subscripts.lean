-- The subscripts of an array that DIM makes. An axis takes the indexes from its lower
-- to its upper bound and no others. Their distances to the lower bounds are the digits
-- of the place, in a base for each axis that is its length. So each tuple of subscripts
-- has a place of its own, and each place has a tuple.
import Mathlib.Data.List.Forall2
import LineBasic.Proofs.Addresses
import LineBasic.Proofs.Axes
import LineBasic.Proofs.Rounding

namespace LineBasic

/-! ## Extents -/

/-- The lowest and the highest index of an axis. -/
structure Extent where
  lower : Int
  upper : Int

namespace Extent

variable {e : Extent} {es : List Extent} {x : Axis} {axes : List Axis} {is : List Int64} {n : Nat}

/-- The number of indexes. -/
def length (e : Extent) : Int := e.upper - e.lower + 1

/-- There is one index for each extent, and it is within. -/
def Hold (es : List Extent) (is : List Int64) : Prop :=
  List.Forall₂ (fun e i => e.lower ≤ i.toInt ∧ i.toInt ≤ e.upper) es is

/-- The sum of the distances to the lower bounds, each times the lengths of the later extents. -/
def place : List Extent → List Int64 → Int
  | e :: es, i :: is => (i.toInt - e.lower) * (es.map length).prod + place es is
  | _, _ => 0

/-- A lowest index and a number of indexes are those of an extent. -/
structure Spans (e : Extent) (lower : Int64) (length : Nat) : Prop where
  lower_eq : lower.toInt = e.lower
  length_eq : length = e.length
  length_le : length ≤ Real.greatest
  least_le : Real.least ≤ e.upper
  upper_le : e.upper ≤ Real.greatest

/-- The axes are those of the extents. -/
def SpanAll (es : List Extent) (axes : List Axis) : Prop :=
  List.Forall₂ (fun e x => e.Spans x.lower x.length) es axes

theorem Spans.has_iff (h : e.Spans x.lower x.length) (i : Int64) :
    x.Has i ↔ e.lower ≤ i.toInt ∧ i.toInt ≤ e.upper := by
  obtain ⟨hlower, hlength, hle, -, -⟩ := h
  unfold length at hlength
  unfold Axis.Has Axis.offset
  omega

/-- Every distance that is below the number of indexes belongs to an index. -/
theorem Spans.exists_index (h : e.Spans x.lower x.length) {k : Nat} (hk : k < x.length) :
    ∃ i : Int64, (e.lower ≤ i.toInt ∧ i.toInt ≤ e.upper) ∧ (x.offset i).toNat = k := by
  obtain ⟨hlower, hlength, -, -, hupper⟩ := h
  have hlow := x.lower.le_toInt
  unfold length at hlength
  unfold Real.greatest at hupper
  have hi : (Int64.ofInt (e.lower + k)).toInt = e.lower + k :=
    Int64.toInt_ofInt_of_le (by omega) (by omega)
  refine ⟨Int64.ofInt (e.lower + k), ?_, ?_⟩
  · omega
  · rw [Axis.offset, hlower, hi]
    omega

theorem SpanAll.count_eq (h : SpanAll es axes) : Axis.count axes = (es.map length).prod := by
  induction h with
  | nil => rfl
  | cons hx _ ih =>
    rw [Axis.count_cons, List.map_cons, List.prod_cons, ← ih, ← hx.length_eq, Int.natCast_mul]

/-! ## Places -/

/-- Indexes within the extents have a place, and it is the weighted sum. -/
theorem SpanAll.placeOn_of_hold (h : SpanAll es axes) (hrow : Axis.RowMajor axes)
    (his : Hold es is) : ∃ n, Grid.placeOn is axes = .ok n ∧ n = place es is := by
  induction h generalizing is with
  | nil =>
    cases his
    exact ⟨0, rfl, rfl⟩
  | @cons e x es axes hx h ih =>
    cases his with
    | @cons _ i _ is hi his =>
      obtain ⟨hstride, hrest⟩ := Axis.rowMajor_cons.1 hrow
      obtain ⟨m, hm, hsum⟩ := ih hrest his
      have hhas := (hx.has_iff i).2 hi
      have hoffset : ((x.offset i).toNat : Int) = i.toInt - e.lower := by
        rw [Int.toNat_of_nonneg hhas.1, Axis.offset, hx.lower_eq]
      refine ⟨(x.offset i).toNat * x.stride + m, ?_, ?_⟩
      · rw [Grid.placeOn_cons, if_pos hhas, hm]
        rfl
      · rw [place, ← hsum, ← SpanAll.count_eq h, ← hoffset, hstride]
        simp

/-- Only indexes within the extents have a place. -/
theorem SpanAll.hold_of_placeOn (h : SpanAll es axes) (hlength : is.length = axes.length)
    (hn : Grid.placeOn is axes = .ok n) : Hold es is := by
  induction h generalizing is n with
  | nil =>
    obtain rfl := List.length_eq_zero_iff.1 hlength
    exact .nil
  | cons hx _ ih =>
    cases is with
    | nil => cases hlength
    | cons i is =>
      obtain ⟨hhas, m, hm, -⟩ := Grid.exists_of_placeOn hn
      exact .cons ((hx.has_iff i).1 hhas) (ih (by simpa using hlength) hm)

/-- Every place below the number of tuples is the place of one. Its first index is as far
from the lower bound as the quotient says, and the remainder is left for the others. -/
theorem SpanAll.exists_hold (h : SpanAll es axes) (hrow : Axis.RowMajor axes)
    (hn : n < Axis.count axes) : ∃ is, Hold es is ∧ Grid.placeOn is axes = .ok n := by
  induction h generalizing n with
  | nil =>
    obtain rfl : n = 0 := by simpa using hn
    exact ⟨[], .nil, rfl⟩
  | @cons e x es axes hx _ ih =>
    obtain ⟨hstride, hrest⟩ := Axis.rowMajor_cons.1 hrow
    rw [Axis.count_cons] at hn
    have hpos : 0 < Axis.count axes := by
      apply Nat.pos_of_ne_zero
      intro hzero
      simp [hzero] at hn
    have hdigit : n / Axis.count axes < x.length := Nat.div_lt_of_lt_mul (Nat.mul_comm _ _ ▸ hn)
    obtain ⟨is, his, hm⟩ := ih hrest (Nat.mod_lt n hpos)
    obtain ⟨i, hi, hoffset⟩ := hx.exists_index hdigit
    refine ⟨i :: is, .cons hi his, ?_⟩
    rw [Grid.placeOn_cons, if_pos ((hx.has_iff i).2 hi), hm, hoffset, hstride]
    exact congrArg Except.ok (Nat.div_add_mod' n _)

end Extent

namespace Grid

variable {a : Grid Value} {e : Extent} {es : List Extent} {x : Axis} {axes : List Axis}
  {is js : List Int64} {n total : Nat}

/-- Different tuples have different places. -/
theorem placeOn_inj (hrow : Axis.RowMajor axes) (his : is.length = axes.length)
    (hjs : js.length = axes.length) (hi : placeOn is axes = .ok n)
    (hj : placeOn js axes = .ok n) : is = js := by
  induction axes generalizing is js n with
  | nil =>
    rw [List.length_eq_zero_iff.1 his, List.length_eq_zero_iff.1 hjs]
  | cons x axes ih =>
    cases is with
    | nil => cases his
    | cons i is =>
      cases js with
      | nil => cases hjs
      | cons j js =>
        obtain ⟨hstride, hrest⟩ := Axis.rowMajor_cons.1 hrow
        obtain ⟨hhas, m, hm, rfl⟩ := exists_of_placeOn hi
        obtain ⟨hhas', m', hm', heq⟩ := exists_of_placeOn hj
        have his' : is.length = axes.length := by simpa using his
        have hjs' : js.length = axes.length := by simpa using hjs
        have hlt := placeOn_lt hrest his' hm
        have hlt' := placeOn_lt hrest hjs' hm'
        rw [hstride] at heq
        have hdigit : (x.offset i).toNat = (x.offset j).toNat := by
          have hdiv := congrArg (· / Axis.count axes) heq
          simpa [Nat.mul_add_div, Nat.mul_comm, Nat.div_eq_of_lt, hlt, hlt', Nat.zero_lt_of_lt hlt]
            using hdiv
        have hindex : i = j := by
          apply Int64.toInt_inj.1
          have hlow := hhas.1
          have hlow' := hhas'.1
          unfold Axis.offset at hdigit hlow hlow'
          omega
        obtain rfl : m = m' := by
          rw [hdigit] at heq
          exact Nat.add_left_cancel heq
        rw [hindex, ih hrest his' hjs' hm hm']

/-! ## Without overflow -/

/-- The place as the running total of a loop over words of 64 bits. There is none if a step
or the total does not fit. -/
def wordPlace (total : Nat) : List Int64 → List Axis → Option (Except Error Nat)
  | i :: is, x :: xs =>
    if x.Has i then
      let total := total + (x.offset i).toNat * x.stride
      if total < 0x10000000000000000 then wordPlace total is xs else none
    else some (.error (Error.indexOutOfBounds i.toInt))
  | _, _ => some (.ok total)

/-- The total fits after each step, as there is room for all places on the later axes. -/
theorem wordPlace_eq (hrow : Axis.RowMajor axes)
    (hroom : total + Axis.count axes < 0x10000000000000000) :
    wordPlace total is axes = some ((placeOn is axes).map (total + ·)) := by
  induction axes generalizing is total with
  | nil => cases is <;> rfl
  | cons x axes ih =>
    cases is with
    | nil => rfl
    | cons i is =>
      obtain ⟨hstride, hrest⟩ := Axis.rowMajor_cons.1 hrow
      rw [wordPlace, placeOn_cons]
      by_cases hhas : x.Has i
      · have hstep := step_add_le hhas hstride
        rw [if_pos hhas, if_pos hhas]
        dsimp only
        rw [if_pos (by omega), ih hrest (by omega)]
        cases placeOn is axes with
        | error e => rfl
        | ok m => exact congrArg (fun k => some (Except.ok k)) (Nat.add_assoc _ _ _)
      · rw [if_neg hhas, if_neg hhas]
        rfl

/-! ## An array over extents -/

/-- An array with axes has one item for each tuple of indexes within some extents. -/
structure Over (a : Grid Value) (es : List Extent) : Prop where
  hasAxes : a.axes ≠ []
  spans : Extent.SpanAll es a.axes
  rowMajor : Axis.RowMajor a.axes
  size : a.size = Axis.count a.axes
  limit : Axis.count a.axes ≤ maxItems

theorem Over.length_eq (h : a.Over es) : a.axes.length = es.length :=
  (List.Forall₂.length_eq h.spans).symm

theorem Over.length_of_hold (h : a.Over es) (his : Extent.Hold es is) :
    is.length = a.axes.length := by
  rw [h.length_eq, List.Forall₂.length_eq his]

theorem Over.place_of_hold (h : a.Over es) (his : Extent.Hold es is) :
    ∃ n, a.place is = .ok n ∧ n = Extent.place es is := by
  obtain ⟨n, hn, hsum⟩ := h.spans.placeOn_of_hold h.rowMajor his
  exact ⟨n, (place_eq_ok_iff h.hasAxes).2 ⟨h.length_of_hold his, hn⟩, hsum⟩

theorem Over.hold_of_place (h : a.Over es) (hn : a.place is = .ok n) : Extent.Hold es is := by
  obtain ⟨hlength, hn⟩ := (place_eq_ok_iff h.hasAxes).1 hn
  exact h.spans.hold_of_placeOn hlength hn

theorem Over.place_inj (h : a.Over es) (hi : a.place is = .ok n) (hj : a.place js = .ok n) :
    is = js := by
  obtain ⟨his, hi⟩ := (place_eq_ok_iff h.hasAxes).1 hi
  obtain ⟨hjs, hj⟩ := (place_eq_ok_iff h.hasAxes).1 hj
  exact placeOn_inj h.rowMajor his hjs hi hj

theorem Over.exists_place_iff (h : a.Over es) : (∃ is, a.place is = .ok n) ↔ n < a.size := by
  rw [h.size]
  constructor
  · rintro ⟨is, hn⟩
    obtain ⟨hlength, hn⟩ := (place_eq_ok_iff h.hasAxes).1 hn
    exact placeOn_lt h.rowMajor hlength hn
  · intro hn
    obtain ⟨is, his, hplace⟩ := h.spans.exists_hold h.rowMajor hn
    exact ⟨is, (place_eq_ok_iff h.hasAxes).2 ⟨h.length_of_hold his, hplace⟩⟩

theorem Over.wordPlace_eq (h : a.Over es) (hlength : is.length = es.length) :
    wordPlace 0 is a.axes = some (a.place is) := by
  have hroom : 0 + Axis.count a.axes < 0x10000000000000000 := by
    have hlimit := h.limit
    unfold maxItems at hlimit
    omega
  have hlength' : ¬ is.length ≠ a.axes.length := by simp [hlength, h.length_eq]
  rw [Grid.wordPlace_eq h.rowMajor hroom, place_of_axes h.hasAxes, if_neg hlength']
  cases placeOn is a.axes with
  | error e => rfl
  | ok n => exact congrArg (fun k => some (Except.ok k)) (Nat.zero_add n)

/-- A number of indexes less one is exact, also if there are none. -/
theorem toInt_length_sub_one {k : Nat} (hk : (k : Int) ≤ Real.greatest) :
    (Int64.ofNat k - 1).toInt = k - 1 := by
  unfold Real.greatest at hk
  rw [Int64.toInt_sub, Int64.toInt_ofNat_of_lt (by omega)]
  exact Int.bmod_eq_of_le (by simp; omega) (by simp; omega)

/-- The bounds that an axis tells are those of its extent. -/
theorem Over.bounds (h : a.Over es) {i : Nat} (he : es[i]? = some e) :
    ∃ l u, a.bounds (i + 1) = .ok (l, u) ∧ l.toInt = e.lower ∧ u.toInt = e.upper := by
  obtain ⟨hi, rfl⟩ := List.getElem?_eq_some_iff.1 he
  have hi' : i < a.axes.length := h.length_eq ▸ hi
  obtain ⟨hlower, hlength, hle, hleast, hupper⟩ := List.Forall₂.get h.spans hi hi'
  have hx : a.axes[i]? = some (a.axes.get ⟨i, hi'⟩) := List.getElem?_eq_getElem hi'
  generalize a.axes.get ⟨i, hi'⟩ = x at *
  refine ⟨x.lower, Real.saturate (x.lower.toInt + (Int64.ofNat x.length - 1).toInt), ?_, hlower, ?_⟩
  · unfold Grid.bounds
    rw [isDynamic_of_axes h.hasAxes, if_neg Bool.false_ne_true]
    simp only [hx]
  · have hsum : x.lower.toInt + (Int64.ofNat x.length - 1).toInt = es[i].upper := by
      rw [toInt_length_sub_one hle, hlength, hlower]
      unfold Extent.length
      simp only [List.get_eq_getElem]
      omega
    rw [hsum]
    exact Integer.toInt_saturate_of_fits hleast hupper

end Grid

/-! ## DIM -/

/-- The extent that an axis asks for: two bounds, or a number of indexes from zero on. -/
def AxisRange.declared (a : AxisRange) : Run Extent := do
  let upper ← Run.integer a.upper
  match a.lower with
  | some e => return ⟨(← Run.integer e).toInt, upper.toInt⟩
  | none => return ⟨0, upper.toInt - 1⟩

namespace Run

variable {α β γ : Type} {p : Program} {s t : State}

theorem exists_of_bind {x : Run α} {f : α → Run β} {b : β} (h : (x >>= f) p s = .ok b t) :
    ∃ a u, x p s = .ok a u ∧ f a p u = .ok b t := by
  cases hx : x p s with
  | ok a u => exact ⟨a, u, rfl, by rwa [bind_of_ok hx] at h⟩
  | error e u =>
    rw [bind_of_error hx] at h
    cases h

theorem eq_ok_of_ofExcept {x : Except Error α} {a : α} (h : ofExcept x p s = .ok a t) :
    x = .ok a := by
  cases x with
  | ok b =>
    cases h
    rfl
  | error e => cases h

/-- An axis that DIM takes has the indexes of the extent that it asks for. -/
theorem exists_of_axisBounds {a : AxisRange} {b : Int64 × Nat} (h : axisBounds a p s = .ok b t) :
    ∃ e, a.declared p s = .ok e t ∧ e.Spans b.1 b.2 := by
  obtain ⟨upper, u, hupper, h⟩ := exists_of_bind h
  have hleast := upper.le_toInt
  have hgreatest := upper.toInt_lt
  unfold AxisRange.declared
  rw [bind_of_ok hupper]
  cases hlower : a.lower with
  | none =>
    rw [hlower] at h
    change (if upper.toInt < 0 then throw Error.negativeArraySize
      else pure (0, upper.toInt.toNat) : Run _) p u = _ at h
    split at h
    · cases h
    · cases h
      refine ⟨⟨0, upper.toInt - 1⟩, rfl, rfl, ?_, ?_, ?_, ?_⟩ <;>
        simp only [Extent.length, Real.least, Real.greatest] <;> omega
  | some e =>
    rw [hlower] at h
    obtain ⟨lower, v, hl, h⟩ := exists_of_bind h
    dsimp only at h ⊢
    rw [bind_of_ok hl]
    split at h
    · rename_i hfits
      change (if upper.toInt - lower.toInt + 1 < 0 then throw Error.negativeArraySize
        else pure (lower, (upper.toInt - lower.toInt + 1).toNat) : Run _) p v = _ at h
      split at h
      · cases h
      · cases h
        simp only [Real.fits, Bool.and_eq_true, decide_eq_true_eq] at hfits
        refine ⟨⟨lower.toInt, upper.toInt⟩, rfl, rfl, ?_, ?_, ?_, ?_⟩ <;>
          simp only [Extent.length, Real.least, Real.greatest] at * <;> omega
    · cases h

theorem exists_of_mapM {f : α → Run β} {g : α → Run γ} {R : γ → β → Prop}
    (hf : ∀ {a s b t}, f a p s = .ok b t → ∃ c, g a p s = .ok c t ∧ R c b) {l : List α}
    {bs : List β} (h : l.mapM f p s = .ok bs t) :
    ∃ cs, l.mapM g p s = .ok cs t ∧ cs.length = l.length ∧ List.Forall₂ R cs bs := by
  induction l generalizing s bs with
  | nil =>
    cases h
    exact ⟨[], rfl, rfl, .nil⟩
  | cons a l ih =>
    rw [List.mapM_cons] at h ⊢
    obtain ⟨b, u, hb, h⟩ := exists_of_bind h
    obtain ⟨rest, v, hrest, h⟩ := exists_of_bind h
    cases h
    obtain ⟨c, hc, hR⟩ := hf hb
    obtain ⟨cs, hcs, hlength, hall⟩ := ih hrest
    refine ⟨c :: cs, ?_, congrArg (· + 1) hlength, .cons hR hall⟩
    rw [bind_of_ok hc, bind_of_ok hcs]
    rfl

/-- An array that fits a name of its type is stored as it is. -/
theorem peek_of_storeArray {name : Name} {a : Grid Value} {v : Unit} (hname : name.isArray = true)
    (ha : a.element = Kind.ofName name) (h : store name (.array a) p s = .ok v t) :
    t.memory.variables.peek name = .array a := by
  have hafter := after_storePlain (p := p) (s := s) name (.array a)
  unfold After at hafter
  rw [h] at hafter
  obtain ⟨w, hw, hwrites⟩ := hafter
  have hfit : fitTo name (.array a) = .ok (.array a) := by
    unfold fitTo Grid.retype
    rw [if_pos hname]
    dsimp only
    rw [if_pos ha]
    rfl
  have hsame : w = .array a := Except.ok.inj (hw.symm.trans hfit)
  rw [← hsame]
  exact hwrites.peek_self rfl

/-- A DIM that succeeds leaves an array over the extents that it asks for. -/
theorem exists_of_dim {name : Name} {axes : List AxisRange} {flow : Flow} (hne : axes ≠ [])
    (h : execute (.dim name axes) p s = .ok flow t) :
    ∃ es u a, axes.mapM AxisRange.declared p s = .ok es u ∧ es.length = axes.length ∧
      t.memory.variables.peek (name.ofArray axes.length) = .array a ∧ a.Over es := by
  unfold execute dimStatement at h
  obtain ⟨bounds, u, hbounds, h⟩ := exists_of_bind h
  obtain ⟨a, v, ha, h⟩ := exists_of_bind h
  obtain ⟨_, w, hstore, h⟩ := exists_of_bind h
  cases h
  obtain ⟨es, hes, hlength, hspans⟩ := exists_of_mapM exists_of_axisBounds hbounds
  obtain ⟨haxes, hrow, hlimit, helement, hitems⟩ :=
    Grid.exists_of_dimensioned (eq_ok_of_ofExcept ha)
  have hspans' : Extent.SpanAll es a.axes := by
    rw [← haxes] at hspans
    exact List.forall₂_map_right_iff.1 hspans
  refine ⟨es, u, a, hes, hlength, peek_of_storeArray (name.isArray_ofArray _) helement hstore, ?_⟩
  refine ⟨?_, hspans', hrow, ?_, hlimit⟩
  · intro hnil
    have hsame := List.Forall₂.length_eq hspans'
    rw [hlength, hnil] at hsame
    exact hne (List.length_eq_zero_iff.1 hsame)
  · rw [Grid.size, hitems, Array.size_replicate]

end Run

/-- LBOUND and UBOUND of an axis, which count from one, tell the bounds of its extent. -/
theorem Grid.Over.compute_bounds {a : Grid Value} {es : List Extent} {e : Extent} (h : a.Over es)
    (view : View) {n : Int64} (hn : 1 ≤ n) (he : es[n.toInt.toNat - 1]? = some e) :
    ∃ l u : Int64, Builtin.lbound.compute view [.array a, .integer n] = .ok (.integer l) ∧
      Builtin.ubound.compute view [.array a, .integer n] = .ok (.integer u) ∧
      l.toInt = e.lower ∧ u.toInt = e.upper := by
  obtain ⟨l, u, hbounds, hl, hu⟩ := h.bounds he
  have hn' : 1 ≤ n.toInt := Int64.le_iff_toInt_le.1 hn
  have hcount : (Value.integer n).toCount = .ok n.toInt.toNat := by
    have hneg : ¬ n < 0 := by
      rw [Int64.lt_iff_toInt_lt]
      exact Int.not_lt.2 (Int.le_trans (by decide) hn')
    exact if_neg hneg
  have hboundsOf : ∀ word, Builtin.boundsOf word (.array a) (.integer n) = .ok (l, u) := by
    intro word
    unfold Builtin.boundsOf
    rw [hcount]
    change a.bounds (max n.toInt.toNat 1) = _
    rw [← hbounds]
    exact congrArg a.bounds (by omega)
  refine ⟨l, u, ?_, ?_, hl, hu⟩
  · change (do return Value.integer (← Builtin.boundsOf "LBOUND" (.array a) (.integer n)).1 :
      Except Error Value) = _
    rw [hboundsOf]
    rfl
  · change (do return Value.integer (← Builtin.boundsOf "UBOUND" (.array a) (.integer n)).2 :
      Except Error Value) = _
    rw [hboundsOf]
    rfl

/-- A DIM that succeeds stores an array with an extent for each axis: the two bounds that its
expressions come to, or zero and one less than the number they come to. LBOUND and UBOUND
tell these bounds. A tuple of subscripts has a place just if it has an index for each axis and
each is within the bounds. The place is the sum of the distances to the lower bounds, each times
the lengths of the later axes, and no step of it leaves 64 bits, whatever the indexes. Each
number below the size is the place of one tuple and of no other, and a tuple without a place
is out of range. -/
theorem dim_gives_every_subscript_its_own_item {p : Program} {s t : State} {name : Name}
    {axes : List AxisRange} {flow : Flow} (hne : axes ≠ [])
    (h : Run.execute (.dim name axes) p s = .ok flow t) :
    ∃ es u a, axes.mapM AxisRange.declared p s = .ok es u ∧ es.length = axes.length ∧
      t.memory.variables.peek (name.ofArray axes.length) = .array a ∧
      (∀ view n e, (1 : Int64) ≤ n → es[n.toInt.toNat - 1]? = some e → ∃ lowest highest : Int64,
        Builtin.lbound.compute view [.array a, .integer n] = .ok (.integer lowest) ∧
        Builtin.ubound.compute view [.array a, .integer n] = .ok (.integer highest) ∧
        lowest.toInt = e.lower ∧ highest.toInt = e.upper) ∧
      (∀ is, (∃ n, a.place is = .ok n) ↔ Extent.Hold es is) ∧
      (∀ is n, a.place is = .ok n → n = Extent.place es is) ∧
      (∀ is, is.length = es.length → Grid.wordPlace 0 is a.axes = some (a.place is)) ∧
      (∀ is js n, a.place is = .ok n → a.place js = .ok n → is = js) ∧
      (∀ n, (∃ is, a.place is = .ok n) ↔ n < a.size) ∧
      ∀ is, ¬ Extent.Hold es is → ∃ e, a.place is = .error e ∧ e.code = .subscriptOutOfRange := by
  obtain ⟨es, u, a, hes, hlength, hpeek, hover⟩ := Run.exists_of_dim hne h
  refine ⟨es, u, a, hes, hlength, hpeek, ?_, ?_, ?_, ?_, ?_, ?_, ?_⟩
  · intro view n e hn he
    exact hover.compute_bounds view hn he
  · intro is
    constructor
    · rintro ⟨n, hn⟩
      exact hover.hold_of_place hn
    · intro his
      obtain ⟨n, hn, -⟩ := hover.place_of_hold his
      exact ⟨n, hn⟩
  · intro is n hn
    obtain ⟨m, hm, hsum⟩ := hover.place_of_hold (hover.hold_of_place hn)
    rw [hn] at hm
    cases hm
    exact hsum
  · intro is his
    exact hover.wordPlace_eq his
  · intro is js n hi hj
    exact hover.place_inj hi hj
  · intro n
    exact hover.exists_place_iff
  · intro is his
    cases hplace : a.place is with
    | ok n => exact absurd (hover.hold_of_place hplace) his
    | error e => exact ⟨e, rfl, Grid.code_of_place hover.hasAxes hplace⟩

/-- A table with rows from one to two, and three columns from zero on. -/
theorem a_table_gives_every_subscript_its_own_item :
    let name : Name := ⟨['a', '%']⟩
    let axes : List AxisRange := [⟨some (.integer 1), .integer 2⟩, ⟨none, .integer 3⟩]
    let s : State := { memory := .ofSeed 7 }
    ∃ flow t a, Run.execute (.dim name axes) (.ofStatements []) s = .ok flow t ∧
      t.memory.variables.peek (name.ofArray 2) = .array a ∧
      a.place [2, 1] = .ok 4 ∧ ∃ e, a.place [0, 1] = .error e ∧ e.code = .subscriptOutOfRange := by
  intro name axes s
  obtain ⟨flow, t, h⟩ : ∃ flow t, Run.execute (.dim name axes) (.ofStatements []) s = .ok flow t :=
    ⟨_, _, rfl⟩
  obtain ⟨es, u, a, hes, -, hpeek, -, hhold, hsum, -, -, -, hout⟩ :=
    dim_gives_every_subscript_its_own_item (by simp [axes]) h
  obtain rfl : es = [⟨1, 2⟩, ⟨0, 2⟩] := by
    cases hes
    rfl
  refine ⟨flow, t, a, h, hpeek, ?_, hout _ ?_⟩
  · obtain ⟨n, hn⟩ := (hhold [2, 1]).2 (.cons (by decide) (.cons (by decide) .nil))
    have hplace := hsum _ _ hn
    rw [hn]
    exact congrArg Except.ok (Int.ofNat.inj hplace)
  · intro his
    cases his with
    | cons hrow _ => exact absurd hrow.1 (by decide)

end LineBasic
