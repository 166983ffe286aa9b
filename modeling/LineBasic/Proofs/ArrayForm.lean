-- The form of an array. Every item has the type of the array, and an array with axes
-- has an item for each tuple of indexes. A new array has this form and every change
-- keeps it: a change works on the array in place, and one that fails leaves it as it was.
-- An array with axes keeps its axes and its number of items for good, so a place that was
-- worked out is always there.
import LineBasic.Proofs.Assignment
import LineBasic.Proofs.Axes

namespace LineBasic.Grid

variable {a b c : Grid Value} {v w : Value} {is : List Int64} {k : Kind}

/-! ## The form -/

/-- All items have the type of the array. -/
def OneKind (a : Grid Value) : Prop := ∀ v ∈ a.items, v.kind = a.element

structure Formed (a : Grid Value) : Prop where
  kinds : a.OneKind
  rowMajor : Axis.RowMajor a.axes
  size : a.axes ≠ [] → a.size = Axis.count a.axes

/-- The ways to make an array. -/
inductive Made : Grid Value → Prop where
  | dynamic (element : Kind) : Made (dynamic element)
  | dimensioned {element : Kind} {bounds : List (Int64 × Nat)} {a : Grid Value}
      (h : dimensioned element bounds = .ok a) : Made a
  | ofItems {element : Kind} {items : List Value} {a : Grid Value}
      (h : ofItems element items = .ok a) : Made a

/-- The ways to change an array. -/
inductive Edit where
  | set (indexes : List Int64) (v : Value)
  | push (v : Value)
  | unshift (v : Value)
  | pop
  | shift
  | retype (element : Kind)

/-- What a change does to an array. -/
def Edit.action : Edit → Action (Grid Value) Unit
  | .set is v => setting is v
  | .push v => pushing v
  | .unshift v => unshifting v
  | .pop => do let _ ← popping
  | .shift => do let _ ← shifting
  | .retype element => do
    let b ← Action.ofExcept ((← getThe (Grid Value)).retype element)
    modify fun _ => b

/-- The array after a change that succeeds. -/
def change (a : Grid Value) : Edit → Except Error (Grid Value)
  | .set is v => a.set is v
  | .push v => a.push v
  | .unshift v => a.unshift v
  | .pop => do return (← a.pop).2
  | .shift => do return (← a.shift).2
  | .retype element => a.retype element

/-- The array after a change, whether it succeeds or fails. -/
def edit (a : Grid Value) (e : Edit) : Grid Value := (e.action.result a).2

def editAll (a : Grid Value) (es : List Edit) : Grid Value := es.foldl edit a

/-! ## Changes that fail -/

theorem wholeAt_growing (i : Nat) : (growing i).WholeAt a := by
  refine Action.wholeAt_getThe (Action.wholeAt_ite (fun _ => Action.wholeAt_of_granted rfl) fun _ => ?_)
  refine Action.wholeAt_ite (fun _ => Action.wholeAt_throw _) fun _ => ?_
  exact Action.wholeAt_ite (fun _ => Action.wholeAt_throw _) fun _ => Action.wholeAt_of_granted rfl

/-- Once a list has grown, the item is stored. -/
theorem wholeAt_setting (is : List Int64) (v : Value) : (setting is v).WholeAt a := by
  refine Action.wholeAt_getThe (Action.wholeAt_bind_ofExcept fun w _ => ?_)
  refine Action.wholeAt_bind_ofExcept fun i _ => ?_
  exact (wholeAt_growing i).bind fun _ _ _ => ⟨_, rfl⟩

theorem wholeAt_pushing (v : Value) : (pushing v).WholeAt a := by
  refine Action.wholeAt_getThe (Action.wholeAt_bind_ofExcept fun _ _ => ?_)
  refine Action.wholeAt_bind_ofExcept fun _ _ => Action.wholeAt_bind_ofExcept fun w _ => ?_
  exact Action.wholeAt_of_granted rfl

theorem wholeAt_unshifting (v : Value) : (unshifting v).WholeAt a := by
  refine Action.wholeAt_getThe (Action.wholeAt_bind_ofExcept fun _ _ => ?_)
  refine Action.wholeAt_bind_ofExcept fun _ _ => Action.wholeAt_bind_ofExcept fun w _ => ?_
  exact Action.wholeAt_of_granted rfl

theorem wholeAt_popping : popping.WholeAt a :=
  Action.wholeAt_getThe (Action.wholeAt_bind_ofExcept fun _ _ => Action.wholeAt_of_granted rfl)

theorem wholeAt_shifting : shifting.WholeAt a :=
  Action.wholeAt_getThe (Action.wholeAt_bind_ofExcept fun _ _ => Action.wholeAt_of_granted rfl)

/-- No change does anything to the array before it fails. -/
theorem Edit.wholeAt_action (e : Edit) (a : Grid Value) : e.action.WholeAt a := by
  cases e with
  | set is v => exact wholeAt_setting is v
  | push v => exact wholeAt_pushing v
  | unshift v => exact wholeAt_unshifting v
  | pop => exact wholeAt_popping.bind fun _ _ _ => ⟨_, rfl⟩
  | shift => exact wholeAt_shifting.bind fun _ _ _ => ⟨_, rfl⟩
  | retype =>
    exact Action.wholeAt_getThe (Action.wholeAt_bind_ofExcept fun _ _ =>
      Action.wholeAt_of_granted rfl)

theorem changed_action (a : Grid Value) (e : Edit) : e.action.changed a = a.change e := by
  cases e with
  | set | push | unshift => rfl
  | pop | shift =>
    simp only [Edit.action, change, pop, shift, Action.changed_bind]
    rfl
  | retype k =>
    simp only [Edit.action, change, Action.changed_bind, Action.granted_getThe,
      Action.granted_ofExcept, Action.changed_modify, bind_map_left, pure_bind, bind_pure]

theorem edit_of_ok {e : Edit} (h : a.change e = .ok b) : a.edit e = b := by
  rw [edit, (e.wholeAt_action a).result_snd, changed_action, h]

/-- A change that fails leaves the array as it was. -/
theorem edit_of_error {e : Edit} {err : Error} (h : a.change e = .error err) : a.edit e = a := by
  rw [edit, (e.wholeAt_action a).result_snd, changed_action, h]

/-! ## Items of one type -/

theorem kinds_of_coerceAll {vs ws : List Value} (h : coerceAll k vs = .ok ws) :
    ws.length = vs.length ∧ ∀ w ∈ ws, w.kind = k := by
  unfold coerceAll at h
  induction vs generalizing ws with
  | nil =>
    cases h
    simp
  | cons v vs ih =>
    rw [List.mapM_cons] at h
    obtain ⟨w, hw, h⟩ := exists_of_bind_eq_ok h
    obtain ⟨rest, hrest, h⟩ := exists_of_bind_eq_ok h
    cases h
    obtain ⟨hlength, hkinds⟩ := ih hrest
    constructor
    · rw [List.length_cons, List.length_cons, hlength]
    · intro u hu
      rcases List.mem_cons.1 hu with rfl | hu
      · exact Value.kind_of_coerce hw
      · exact hkinds u hu

theorem kind_of_mem_zeros {n : Nat} (h : v ∈ Array.replicate n (Value.zero k)) : v.kind = k := by
  rw [(Array.mem_replicate.1 h).2]
  exact Value.kind_zero k

/-! ## New arrays -/

theorem Made.formed (h : a.Made) : a.Formed := by
  cases h with
  | dynamic element =>
    refine ⟨?_, Axis.rowMajor_nil, fun hne => absurd rfl hne⟩
    intro v hv
    simp [Grid.dynamic] at hv
  | @dimensioned element bounds a h =>
    obtain ⟨-, hrow, -, rfl, hitems⟩ := exists_of_dimensioned h
    refine ⟨?_, hrow, fun _ => ?_⟩
    · intro v hv
      rw [hitems] at hv
      exact kind_of_mem_zeros hv
    · simp [size, hitems]
  | @ofItems element items a h =>
    obtain ⟨ws, hws, h⟩ := exists_of_bind_eq_ok h
    cases h
    refine ⟨?_, Axis.rowMajor_nil, fun hne => absurd rfl hne⟩
    intro v hv
    exact (kinds_of_coerceAll hws).2 v (List.mem_toArray.1 hv)

/-! ## One change -/

/-- One array keeps of another what every change keeps. -/
structure ChangesTo (a b : Grid Value) : Prop where
  kinds : a.OneKind → b.OneKind
  axes : b.axes = a.axes
  size : a.axes ≠ [] → b.size = a.size

theorem ChangesTo.refl (a : Grid Value) : a.ChangesTo a := ⟨id, rfl, fun _ => rfl⟩

theorem ChangesTo.trans (h : a.ChangesTo b) (h' : b.ChangesTo c) : a.ChangesTo c where
  kinds hk := h'.kinds (h.kinds hk)
  axes := h'.axes.trans h.axes
  size hne := (h'.size (by rw [h.axes]; exact hne)).trans (h.size hne)

/-- An array without axes may get any items of its type. -/
theorem changesTo_of_dynamic (hlist : a.isDynamic = true) {items : Array Value}
    (hitems : a.OneKind → ∀ v ∈ items, v.kind = a.element) : a.ChangesTo { a with items } where
  kinds := hitems
  axes := rfl
  size hne := absurd (by simpa [isDynamic] using hlist) hne

theorem isDynamic_of_requireDynamic {u : Unit} (h : a.requireDynamic = .ok u) :
    a.isDynamic = true := by
  unfold requireDynamic at h
  split at h
  · assumption
  · cases h

theorem changesTo_set (h : a.set is v = .ok b) : a.ChangesTo b := by
  rw [set_def] at h
  obtain ⟨w, hw, h⟩ := exists_of_bind_eq_ok h
  obtain ⟨i, hi, h⟩ := exists_of_bind_eq_ok h
  have hkind := Value.kind_of_coerce hw
  split at h
  · cases h
    refine ⟨?_, rfl, fun _ => by simp [size]⟩
    intro hkinds u hu
    rcases Array.mem_or_eq_of_mem_setIfInBounds hu with hu | rfl
    · exact hkinds u hu
    · exact hkind
  · split at h
    · cases h
    · rename_i hlist
      split at h
      · cases h
      · cases h
        apply changesTo_of_dynamic (by simpa using hlist)
        intro hkinds u hu
        rcases Array.mem_push.1 hu with hu | rfl
        · rcases Array.mem_append.1 hu with hu | hu
          · exact hkinds u hu
          · exact kind_of_mem_zeros hu
        · exact hkind

theorem changesTo_push (h : a.push v = .ok b) : a.ChangesTo b := by
  rw [push_def] at h
  obtain ⟨_, hlist, h⟩ := exists_of_bind_eq_ok h
  obtain ⟨_, _, h⟩ := exists_of_bind_eq_ok h
  obtain ⟨w, hw, h⟩ := exists_of_bind_eq_ok h
  cases h
  apply changesTo_of_dynamic (isDynamic_of_requireDynamic hlist)
  intro hkinds u hu
  rcases Array.mem_push.1 hu with hu | rfl
  · exact hkinds u hu
  · exact Value.kind_of_coerce hw

theorem changesTo_unshift (h : a.unshift v = .ok b) : a.ChangesTo b := by
  rw [unshift_def] at h
  obtain ⟨_, hlist, h⟩ := exists_of_bind_eq_ok h
  obtain ⟨_, _, h⟩ := exists_of_bind_eq_ok h
  obtain ⟨w, hw, h⟩ := exists_of_bind_eq_ok h
  cases h
  apply changesTo_of_dynamic (isDynamic_of_requireDynamic hlist)
  intro hkinds u hu
  rcases Array.mem_append.1 hu with hu | hu
  · rw [List.mem_singleton.1 (List.mem_toArray.1 hu)]
    exact Value.kind_of_coerce hw
  · exact hkinds u hu

theorem changesTo_pop (h : a.pop = .ok (v, b)) : a.ChangesTo b := by
  rw [pop_def] at h
  obtain ⟨_, hlist, h⟩ := exists_of_bind_eq_ok h
  cases h
  apply changesTo_of_dynamic (isDynamic_of_requireDynamic hlist)
  intro hkinds u hu
  rw [Array.mem_def, Array.toList_pop] at hu
  exact hkinds u (Array.mem_def.2 (List.dropLast_subset _ hu))

theorem changesTo_shift (h : a.shift = .ok (v, b)) : a.ChangesTo b := by
  rw [shift_def] at h
  obtain ⟨_, hlist, h⟩ := exists_of_bind_eq_ok h
  cases h
  apply changesTo_of_dynamic (isDynamic_of_requireDynamic hlist)
  intro hkinds u hu
  obtain ⟨j, hj, rfl⟩ := Array.mem_extract_iff_getElem.1 hu
  exact hkinds _ (Array.getElem_mem _)

theorem changesTo_retype (h : a.retype k = .ok b) : a.ChangesTo b := by
  unfold retype at h
  split at h
  · cases h
    exact .refl a
  · obtain ⟨ws, hws, h⟩ := exists_of_bind_eq_ok h
    cases h
    obtain ⟨hlength, hkinds⟩ := kinds_of_coerceAll hws
    refine ⟨?_, rfl, fun _ => ?_⟩
    · intro _ w hw
      exact hkinds w (List.mem_toArray.1 hw)
    · simpa [size] using hlength

theorem changesTo_change {e : Edit} (h : a.change e = .ok b) : a.ChangesTo b := by
  cases e with
  | set is v => exact changesTo_set h
  | push v => exact changesTo_push h
  | unshift v => exact changesTo_unshift h
  | pop =>
    obtain ⟨⟨v, c⟩, hpop, h⟩ := exists_of_bind_eq_ok h
    cases h
    exact changesTo_pop hpop
  | shift =>
    obtain ⟨⟨v, c⟩, hshift, h⟩ := exists_of_bind_eq_ok h
    cases h
    exact changesTo_shift hshift
  | retype k => exact changesTo_retype h

theorem changesTo_edit (a : Grid Value) (e : Edit) : a.ChangesTo (a.edit e) := by
  cases h : a.change e with
  | ok b =>
    rw [edit_of_ok h]
    exact changesTo_change h
  | error err =>
    rw [edit_of_error h]
    exact .refl a

/-! ## Any number of changes -/

theorem changesTo_editAll (a : Grid Value) (es : List Edit) : a.ChangesTo (a.editAll es) := by
  induction es generalizing a with
  | nil => exact .refl a
  | cons e es ih => exact (changesTo_edit a e).trans (ih (a.edit e))

theorem Formed.changesTo (h : a.Formed) (hc : a.ChangesTo b) : b.Formed where
  kinds := hc.kinds h.kinds
  rowMajor := by
    rw [hc.axes]
    exact h.rowMajor
  size := by
    intro hne
    rw [hc.axes] at hne ⊢
    rw [hc.size hne, h.size hne]

/-- In an array with axes, a place that was worked out is the place of an item. -/
theorem Formed.place_lt (h : a.Formed) (hne : a.axes ≠ []) {i : Nat} (hi : a.place is = .ok i) :
    i < a.size := by
  obtain ⟨hlength, hplace⟩ := (place_eq_ok_iff hne).1 hi
  rw [h.size hne]
  exact placeOn_lt h.rowMajor hlength hplace

/-- Take an array, however it was made, after any changes, those that failed included.
Every item has the type of the array, and the strides of its axes are the products of the
later lengths. An array with axes has kept its axes and its number of items, which is the
product of all lengths; so each tuple of subscripts that it takes leads to an item, a read
there gives the item, and a write there fails only by the type of the value. -/
theorem arrays_keep_their_form (h : a.Made) (es : List Edit) :
    let b := a.editAll es
    (∀ v ∈ b.items, v.kind = b.element) ∧
    (∀ (i : Nat) (x : Axis), b.axes[i]? = some x →
      x.stride = Axis.count (b.axes.drop (i + 1))) ∧
    b.axes = a.axes ∧
    (a.axes ≠ [] → b.size = a.size ∧ b.size = Axis.count b.axes ∧
      ∀ is i, b.place is = .ok i → i < b.size ∧
        (∃ v, b.items[i]? = some v ∧ b.get is = .ok v) ∧
        ∀ v, b.set is v =
          (v.coerce b.element).map fun w => { b with items := b.items.setIfInBounds i w }) := by
  intro b
  have hchanges := changesTo_editAll a es
  have hformed := h.formed.changesTo hchanges
  refine ⟨hformed.kinds, hformed.rowMajor, hchanges.axes, ?_⟩
  intro hne
  have hne' : b.axes ≠ [] := by
    rw [hchanges.axes]
    exact hne
  refine ⟨hchanges.size hne, hformed.size hne', ?_⟩
  intro is i hi
  have hlt := hformed.place_lt hne' hi
  have hitem : b.items[i]? = some b.items[i] := Array.getElem?_eq_getElem hlt
  exact ⟨hlt, ⟨_, hitem, get_of_place hi hitem⟩, fun v => set_eq hi hitem⟩

/-- Two rows of three numbers. -/
def rows : Grid Value :=
  { element := .integer, items := Array.replicate 6 (.integer 0), axes := [⟨1, 2, 3⟩, ⟨0, 3, 1⟩] }

/-- The rows take no seventh number, and after a write they still have six. -/
theorem rows_keep_their_form :
    let b := rows.editAll [.push (.integer 5), .set [2, 1] (.integer 7)]
    rows.Made ∧ b.axes = rows.axes ∧ b.size = 6 ∧ b.place [2, 1] = .ok 4 ∧
      ∃ v, b.items[4]? = some v ∧ b.get [2, 1] = .ok v := by
  intro b
  have hrows : dimensioned .integer [(1, 2), (0, 3)] = .ok rows := rfl
  have hmade : rows.Made := .dimensioned hrows
  obtain ⟨-, -, haxes, hfixed⟩ :=
    arrays_keep_their_form hmade [.push (.integer 5), .set [2, 1] (.integer 7)]
  obtain ⟨hsize, -, hplaces⟩ := hfixed (by simp [rows])
  have hplace : b.place [2, 1] = .ok 4 := rfl
  obtain ⟨-, hread, -⟩ := hplaces _ _ hplace
  exact ⟨hmade, haxes, hsize, hplace, hread⟩

end LineBasic.Grid
