-- A location is read as the expression that is written like it is evaluated: both come to the
-- same value or fail with the same error, and leave the same behind. The path of a member is
-- walked from the front in the one case and from the back in the other. An item is read
-- without the array around it, and is still what the array would give.
import LineBasic.Proofs.Addresses

namespace LineBasic

/-- The expression that is written like a location. -/
def Location.expression : Location → Expression
  | .variable name => .variable name
  | .element array indexes => .element array indexes
  | .member record path => path.foldl .member (.variable record)

/-! ## Paths -/

theorem Eval.ofExcept_bind {α β : Type} (x : Except Error α) (f : α → Except Error β) :
    Eval.ofExcept (x >>= f) = Eval.ofExcept x >>= fun a => Eval.ofExcept (f a) := by
  cases x <;> rfl

/-- Members of members, from the outermost inwards, are the members along a path. -/
theorem evaluate_members (path : List Name) (e : Expression) :
    evaluate (path.foldl .member e) =
      evaluate e >>= fun v => Eval.ofExcept (v.memberAt path) := by
  induction path generalizing e with
  | nil => exact (bind_pure _).symm
  | cons field rest ih =>
    rw [List.foldl_cons, ih]
    simp only [evaluate, Value.memberAt, Eval.ofExcept_bind, bind_assoc]

theorem Location.read_eq_evaluate (l : Location) : l.read = evaluate l.expression := by
  cases l with
  | «variable» name => rw [read, expression, evaluate]
  | element array indexes => rw [read, expression, evaluate]
  | member record path => rw [read, expression, evaluate_members, evaluate]

/-! ## Items -/

/-- Indexes that are written out stand for themselves. -/
theorem evaluateIndexes_constants (is : List Int64) :
    evaluateIndexes (is.map .integer) = pure is := by
  induction is with
  | nil =>
    rw [List.map_nil, evaluateIndexes]
  | cons i is ih =>
    rw [List.map_cons, evaluateIndexes, ih, evaluate]
    rfl

theorem Location.read_constant_element (array : Name) (is : List Int64) :
    (Location.element array (is.map .integer)).read =
      Eval.element (array.ofArray is.length) is := by
  rw [read, evaluateIndexes_constants, pure_bind]

/-- An item is read out of memory, and only the name is noted. -/
theorem Run.observe_element (name : Name) (is : List Int64) (p : Program) (s : State) :
    outcomeOf (Run.observe (Eval.element name is) p s) = (s.memory.element name is).1 ∧
      stateOf (Run.observe (Eval.element name is) p s) =
        { s with memory := (s.memory.element name is).2 } := by
  have hread : Eval.element name is s.view s.memory.trail =
      Eval.ofExcept (s.memory.variables.element name is) s.view (s.memory.trail.remember name) := rfl
  unfold Run.observe State.observe Memory.element
  rw [hread]
  cases s.memory.variables.element name is <;> exact ⟨rfl, rfl⟩

/-- A name reads as a value of the type that it asks for, if all that is stored is. -/
theorem Variables.Typed.suits_peek {vars : Variables} (h : vars.Typed) (name : Name) :
    (vars.peek name).suits name = true := by
  unfold peek lookup
  cases hf : vars.fetch (vars.cell name false) with
  | none => exact Value.suits_defaultFor name
  | some v =>
    rw [Option.getD_some, ← h.suits_cell name false]
    exact h.suits_fetch hf

theorem Value.exists_array_of_suits {v : Value} {name : Name} (harray : name.isArray = true)
    (h : v.suits name = true) : ∃ a, v = .array a := by
  cases v with
  | array a => exact ⟨a, rfl⟩
  | _ => simp [suits, harray] at h

/-- An item under an array name is read as one of what the whole variable is read as. -/
theorem Variables.element_of_isArray {name : Name} (h : name.isArray = true) (vars : Variables)
    (is : List Int64) : vars.element name is = (Address.item name is).within (vars.peek name) := by
  have hitem := vars.element_eq_within name is
  rwa [Name.ofArray, if_pos h] at hitem

/-- Under an array name there is an array, unless something was stored through an alias of
another type. -/
theorem Variables.peek_of_isArray {name : Name} (h : name.isArray = true) (vars : Variables) :
    (∃ a, vars.peek name = .array a) ∨
      (vars.has name = true ∧ ¬ vars.Typed ∧ ∀ a, vars.peek name ≠ .array a) := by
  by_cases hgrid : ∃ a, vars.peek name = .array a
  · exact Or.inl hgrid
  · refine Or.inr ⟨?_, fun htyped => ?_, fun a ha => hgrid ⟨a, ha⟩⟩
    · cases hhas : vars.has name with
      | true => rfl
      | false =>
        have hnone : vars.lookup name = none := by simpa [has] using hhas
        have hdefault : vars.peek name = Value.defaultFor name := by rw [peek, hnone]; rfl
        rw [hdefault] at hgrid
        exact absurd (Value.exists_array_of_suits h (Value.suits_defaultFor name)) hgrid
    · exact hgrid (Value.exists_array_of_suits h (htyped.suits_peek name))

theorem Address.within_of_no_array {v : Value} (h : ∀ a, v ≠ .array a) (array : Name)
    (is : List Int64) : (Address.item array is).within v = .error (Error.notAnArray v.kind) := by
  cases v with
  | array a => exact absurd rfl (h a)
  | _ => rfl

/-! ## The two ways of reading -/

/-- A location and the expression written like it come to the same value or error and leave the
same state. An item with written out indexes is what memory gives under the name of the array.
Under an array name that is the item of the array that the whole variable reads as, also if
nothing was stored. Otherwise an alias of another type has put something else there, and the item
cannot be read. -/
theorem locations_read_like_their_expressions :
    (∀ (l : Location) (p : Program) (s : State),
      Run.observe l.read p s = Run.value l.expression p s) ∧
    (∀ (array : Name) (is : List Int64) (p : Program) (s : State),
      let r := Run.observe (Location.element array (is.map .integer)).read p s
      let item := s.memory.element (array.ofArray is.length) is
      outcomeOf r = item.1 ∧ stateOf r = { s with memory := item.2 }) ∧
    ∀ (m : Memory) (name : Name) (is : List Int64), name.isArray = true →
      (m.element name is).2 = (m.get name).2 ∧
      ((∃ a, (m.get name).1 = .array a ∧ (m.element name is).1 = a.get is) ∨
        (m.variables.has name = true ∧ ¬ m.variables.Typed ∧ (∀ a, (m.get name).1 ≠ .array a) ∧
          (m.element name is).1 = .error (Error.notAnArray (m.get name).1.kind))) := by
  refine ⟨fun l p s => ?_, fun array is p s => ?_, fun m name is harray => ⟨rfl, ?_⟩⟩
  · rw [Run.value, l.read_eq_evaluate]
  · rw [Location.read_constant_element]
    exact Run.observe_element _ is p s
  · have hitem : (m.element name is).1 = (Address.item name is).within (m.get name).1 :=
      Variables.element_of_isArray harray m.variables is
    rw [hitem]
    rcases Variables.peek_of_isArray harray m.variables with ⟨a, ha⟩ | ⟨hhas, htyped, hgrid⟩
    · have hget : (m.get name).1 = .array a := ha
      exact Or.inl ⟨a, hget, by rw [hget]; rfl⟩
    · exact Or.inr ⟨hhas, htyped, hgrid, Address.within_of_no_array hgrid name is⟩

/-- A member of a number, and an item of an array that was never stored. -/
theorem a_missing_item_reads_like_an_empty_list :
    let p : Name := ⟨['p']⟩
    let x : Name := ⟨['x']⟩
    let s : State := { memory := { Memory.ofSeed 7 with
      «variables» := { globals := ⟨[(⟨['P']⟩, .record ⟨[(⟨['X']⟩, .integer 5)]⟩)]⟩ } } }
    let name : Name := ⟨['a', '#', '[', ']']⟩
    Run.observe (Location.member p [x, x]).read {} s =
        Run.value (.member (.member (.variable p) x) x) {} s ∧
      outcomeOf (Run.observe (Location.member p [x, x]).read {} s) =
        .error (Error.hasNoMembers .integer) ∧
      name.isArray = true ∧ s.memory.variables.has name = false ∧
      ∃ a, (s.memory.get name).1 = .array a ∧ (s.memory.element name [3]).1 = a.get [3] := by
  intro p x s name
  have harray : name.isArray = true := by decide
  have hhas : s.memory.variables.has name = false := rfl
  obtain ⟨hread, -, hitems⟩ := locations_read_like_their_expressions
  refine ⟨hread (.member p [x, x]) {} s, rfl, harray, hhas, ?_⟩
  rcases (hitems s.memory name [3] harray).2 with hlist | ⟨hstored, -⟩
  · exact hlist
  · rw [hhas] at hstored
    cases hstored

end LineBasic
