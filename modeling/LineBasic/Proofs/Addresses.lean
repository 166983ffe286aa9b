-- An address is a location whose indexes are known: a variable, an item or a member. A store
-- at an address writes the one cell of its variable. A store that fails may leave behind the
-- default of a variable that was never stored. No call can tell that from nothing at all, as
-- long as every alias has the sigil and the rank of its target.
import LineBasic.Proofs.Swap
import LineBasic.Proofs.Types

namespace LineBasic

/-! ## Names with one default -/

namespace Name

theorem sameType_of_rank {a b : Name} (hs : a.sigil = b.sigil) (hr : a.rank = b.rank) :
    a.sameType b = true := by
  refine sameType_iff.2 ⟨?_, ?_⟩
  · rw [Bool.eq_iff_iff, isArray_iff_rank, isArray_iff_rank, hr]
  · simp only [Kind.ofName, hs]

end Name

theorem Value.defaultFor_congr {a b : Name} (h : a.sameType b = true) :
    defaultFor a = defaultFor b := by
  obtain ⟨harray, hkind⟩ := Name.sameType_iff.1 h
  simp only [defaultFor, harray, hkind]

/-! ## What is read from every call -/

namespace Variables

variable {vars old mid new : Variables} {c : Cell} {v w : Value}

/-- Every alias has the sigil and the rank of its target. -/
def Faithful (vars : Variables) : Prop :=
  ∀ scope ∈ vars.scopes.items, scope.aliases.All fun key target =>
    key.sigil = target.sigil ∧ key.rank = target.rank

theorem cell_cutTo (vars : Variables) (depth : Nat) (name : Name) :
    (vars.cutTo depth).cell name false = vars.cellFrom (min depth vars.depth) name false := by
  have hdepth : (vars.cutTo depth).depth = min depth vars.depth := List.length_take
  unfold cell cellFrom
  rw [hdepth]
  refine locate_congr (fun level hlevel => ?_) _ _
  have hlt : level < vars.scopes.items.length := by
    have : level < vars.depth := by omega
    exact this
  refine ⟨vars.scopes.items[level], _, List.getElem?_eq_getElem hlt, ?_, .refl _⟩
  change (vars.scopes.items.take depth)[level]? = _
  rw [List.getElem?_take_of_lt (by omega), List.getElem?_eq_getElem hlt]

theorem lookup_cutTo (vars : Variables) (depth : Nat) (name : Name) :
    (vars.cutTo depth).lookup name = vars.fetch ((vars.cutTo depth).cell name false) := by
  unfold lookup
  cases hc : (vars.cutTo depth).cell name false with
  | global key => rfl
  | «local» level key =>
    have hlevel : level < (vars.cutTo depth).depth := locate_local hc
    have hlt : level < depth := by
      have : (vars.cutTo depth).depth = min depth vars.depth := List.length_take
      omega
    change ((vars.scopes.items.take depth)[level]?).bind _ = (vars.scopes.items[level]?).bind _
    rw [List.getElem?_take_of_lt hlt]

/-- From every call, a name has the default of the cell that it leads to. -/
def Uniform (vars : Variables) : Prop :=
  ∀ depth name, Value.defaultFor (vars.cellFrom depth name false).key = Value.defaultFor name

theorem Faithful.uniform (h : vars.Faithful) : vars.Uniform := by
  have haliases : ∀ scope ∈ vars.scopes.items,
      scope.aliases.All fun key target => key.sameType target = true :=
    fun scope hmem e he => Name.sameType_of_rank (h scope hmem e he).1 (h scope hmem e he).2
  intro depth name
  exact Value.defaultFor_congr
    (Name.sameType_trans (sameType_locate haliases depth name.key false) name.sameType_key)

/-- The value of a name depends on its cell, whichever call asks for it. -/
theorem Uniform.peek_eq (h : vars.Uniform) {depth : Nat} {m n : Name}
    (hc : (vars.cutTo depth).cell m false = vars.cell n false) :
    (vars.cutTo depth).peek m = vars.peek n := by
  have hm := h (min depth vars.depth) m
  rw [← cell_cutTo, hc, cell, ← cellFrom, h] at hm
  rw [peek, peek, lookup_cutTo, hc, hm, lookup]

end Variables

/-! ## Addresses -/

/-- A location whose indexes are known. -/
inductive Address where
  | variable (name : Name)
  | item (array : Name) (indexes : List Int64)
  | member (record : Name) (path : List Name)
deriving DecidableEq

namespace Address

/-- The name of the variable that the address is in. -/
def name : Address → Name
  | .variable name => name
  | .item array is => array.ofArray is.length
  | .member name _ => name

/-- What is at the address in a value of its variable. -/
def within : Address → Value → Except Error Value
  | .variable _, v => .ok v
  | .item _ is, .array g => g.get is
  | .item _ _, v => .error (Error.notAnArray v.kind)
  | .member _ path, v => v.memberAt path

/-- A value as the address takes it, by the name of a variable or by the array of an item. -/
def fit : Address → (old : Value) → (new : Value) → Except Error Value
  | .variable name, _, v => fitTo name v
  | .item _ _, .array g, v => v.coerce g.element
  | .item _ _, old, _ => .error (Error.notAnArray old.kind)
  | .member _ _, _, v => .ok v

/-- The value of the variable after a store at the address. -/
def replaced : Address → (old : Value) → (new : Value) → Except Error Value
  | .variable name, _, v => fitTo name v
  | .item _ is, .array g, v => do return .array (← g.set is v)
  | .item _ _, old, _ => .error (Error.notAnArray old.kind)
  | .member _ path, old, v => Value.withMember v path old

end Address

/-- What is read at an address. -/
def Variables.read (vars : Variables) : Address → Except Error Value
  | .variable name => .ok (vars.peek name)
  | .item array is => vars.element (array.ofArray is.length) is
  | .member name path => (vars.peek name).memberAt path

/-- No call reads anything else than before. -/
def Variables.SeenAlike (old new : Variables) : Prop :=
  ∀ depth x, (new.cutTo depth).read x = (old.cutTo depth).read x

/-- The address that a location leads to, if its indexes can be evaluated. -/
def State.address (s : State) : Location → Except Error Address
  | .variable name => .ok (.variable name)
  | .element array indexes => (s.indexes indexes).map (.item array)
  | .member name path => .ok (.member name path)

/-- An item of a variable that was never stored is read as one of its default. -/
theorem Variables.element_eq_within (vars : Variables) (array : Name) (is : List Int64) :
    vars.element (array.ofArray is.length) is =
      (Address.item array is).within (vars.peek (array.ofArray is.length)) := by
  unfold element peek
  cases vars.lookup (array.ofArray is.length) with
  | some v => cases v <;> rfl
  | none =>
    rw [Option.getD_none, Value.defaultFor, if_pos (array.isArray_ofArray _)]
    rfl

theorem Variables.read_eq (vars : Variables) (x : Address) :
    vars.read x = x.within (vars.peek x.name) := by
  cases x with
  | «variable» name => rfl
  | item array is => exact vars.element_eq_within array is
  | member name path => rfl

theorem State.reads_eq (s : State) (l : Location) :
    s.reads l = s.address l >>= s.memory.variables.read := by
  cases l with
  | «variable» name => rfl
  | element array indexes =>
    rw [reads_element]
    simp only [address]
    cases s.indexes indexes <;> rfl
  | member name path => exact reads_member name path

/-! ## Writing one cell -/

namespace Variables

variable {vars old mid new : Variables} {c : Cell} {v w : Value}

/-- `new` is `old` with `w` in a cell, and every name leads to the cell that it led to. -/
structure Writes (old : Variables) (c : Cell) (w : Value) (new : Variables) : Prop where
  here : new.fetch c = some w
  others : ∀ d, d ≠ c → new.fetch d = old.fetch d
  cells : ∀ depth name, new.cellFrom depth name false = old.cellFrom depth name false
  depth : new.depth = old.depth

theorem writes_store (vars : Variables) (name : Name) (w : Value) :
    vars.Writes (vars.cell name false) w (vars.store w (vars.cell name false)) where
  here := vars.fetch_store_self (vars.isLive_cell name false) w
  others _ hd := vars.fetch_store_ne hd w
  cells depth other := by
    cases hc : vars.cell name false with
    | global key => rfl
    | «local» level key =>
      obtain ⟨scope, hscope, hin⟩ := contains_of_locate hc
      exact locate_modify hscope hin depth other.key
  depth := vars.depth_store w _

namespace Writes

theorem cell (h : old.Writes c w new) (name : Name) :
    new.cell name false = old.cell name false := by
  have hcells := h.cells old.depth name
  rw [Variables.cell, h.depth]
  exact hcells

theorem trans (h : old.Writes c v mid) (h' : mid.Writes c w new) : old.Writes c w new where
  here := h'.here
  others d hd := (h'.others d hd).trans (h.others d hd)
  cells depth name := (h'.cells depth name).trans (h.cells depth name)
  depth := h'.depth.trans h.depth

theorem uniform (h : old.Writes c w new) (hu : old.Uniform) : new.Uniform := by
  intro depth name
  rw [h.cells]
  exact hu depth name

theorem cell_cutTo (h : old.Writes c w new) (depth : Nat) (name : Name) :
    (new.cutTo depth).cell name false = (old.cutTo depth).cell name false := by
  rw [Variables.cell_cutTo, Variables.cell_cutTo, h.cells, h.depth]

/-- A call finds the new value under the names that lead it to the cell. -/
theorem peek_of_eq (h : old.Writes c w new) {depth : Nat} {name : Name}
    (hc : (old.cutTo depth).cell name false = c) : (new.cutTo depth).peek name = w := by
  rw [peek, lookup_cutTo, h.cell_cutTo, hc, h.here]
  rfl

theorem peek_of_ne (h : old.Writes c w new) {depth : Nat} {name : Name}
    (hc : (old.cutTo depth).cell name false ≠ c) :
    (new.cutTo depth).peek name = (old.cutTo depth).peek name := by
  rw [peek, peek, lookup_cutTo, lookup_cutTo, h.cell_cutTo, h.others _ hc]

end Writes

/-- The innermost call is the one at the full depth. -/
theorem cutTo_of_le {depth : Nat} (h : vars.depth ≤ depth) : vars.cutTo depth = vars := by
  have hall : vars.scopes.truncate depth = vars.scopes := Stack.truncate_all _ h
  rw [cutTo, hall]

theorem cutTo_depth (vars : Variables) : vars.cutTo vars.depth = vars := cutTo_of_le (Nat.le_refl _)

theorem Writes.peek_self (h : old.Writes c w new) {name : Name} (hc : old.cell name false = c) :
    new.peek name = w := by
  have hpeek : (new.cutTo old.depth).peek name = w := h.peek_of_eq (by rwa [cutTo_depth])
  rwa [← h.depth, cutTo_depth] at hpeek

theorem Writes.peek_other (h : old.Writes c w new) {name : Name} (hc : old.cell name false ≠ c) :
    new.peek name = old.peek name := by
  have hpeek : (new.cutTo old.depth).peek name = (old.cutTo old.depth).peek name :=
    h.peek_of_ne (by rwa [cutTo_depth])
  rwa [cutTo_depth, ← h.depth, cutTo_depth] at hpeek

theorem seenAlike_of_peek
    (h : ∀ depth name, (new.cutTo depth).peek name = (old.cutTo depth).peek name) :
    old.SeenAlike new := by
  intro depth x
  rw [read_eq, read_eq, h]

theorem SeenAlike.refl (vars : Variables) : vars.SeenAlike vars := fun _ _ => rfl

theorem SeenAlike.trans (h : old.SeenAlike mid) (h' : mid.SeenAlike new) : old.SeenAlike new :=
  fun depth x => (h' depth x).trans (h depth x)

theorem SeenAlike.read_eq (h : old.SeenAlike new) (x : Address) : new.read x = old.read x := by
  have hread := h (max old.depth new.depth) x
  rwa [cutTo_of_le (Nat.le_max_right _ _), cutTo_of_le (Nat.le_max_left _ _)] at hread

/-- A value that is stored where it is read is not seen. -/
theorem Writes.seenAlike {name : Name} (h : old.Writes (old.cell name false) (old.peek name) new)
    (hu : old.Uniform) : old.SeenAlike new := by
  refine seenAlike_of_peek fun depth m => ?_
  by_cases hc : (old.cutTo depth).cell m false = old.cell name false
  · rw [h.peek_of_eq hc, hu.peek_eq hc]
  · exact h.peek_of_ne hc

/-- `new` is `old`, or has the default of a variable that was never stored besides. -/
def Readies (old : Variables) (name : Name) (new : Variables) : Prop :=
  new = old ∨ old.lookup name = none ∧ old.Writes (old.cell name false) (Value.defaultFor name) new

theorem Readies.seenAlike {name : Name} (h : old.Readies name new) (hu : old.Uniform) :
    old.SeenAlike new := by
  rcases h with rfl | ⟨hnone, hw⟩
  · exact .refl _
  · have hpeek : old.peek name = Value.defaultFor name := by
      rw [peek, hnone]
      rfl
    exact Writes.seenAlike (hpeek ▸ hw) hu

/-- `new` is `old` with a value stored at an address. -/
def Receives (old : Variables) (x : Address) (v : Value) (new : Variables) : Prop :=
  ∃ w, x.replaced (old.peek x.name) v = .ok w ∧ old.Writes (old.cell x.name false) w new

end Variables

/-! ## Storing -/

namespace Run

variable {α : Type} {p : Program} {s : State}

/-- A change of a variable starts from what is read under its name. It writes the cell of
the name, or fails and leaves at most a default there. -/
theorem after_updateCell (name : Name) (change : Value → Except Error (α × Value)) :
    After (update name change) p s
      (fun a t => ∃ w, change (s.memory.variables.peek name) = .ok (a, w) ∧
        s.memory.variables.Writes (s.memory.variables.cell name false) w t.memory.variables)
      fun e t => change (s.memory.variables.peek name) = .error e ∧
        s.memory.variables.Readies name t.memory.variables := by
  rw [update_eq]
  simp only [after_bind, after_memory, Memory.slot, after_setMemory, after_ofExcept, after_pure]
  have hstore := s.memory.variables.writes_store name
  unfold Variables.peek Variables.slot
  cases hv : s.memory.variables.lookup name with
  | some v =>
    have hfetch : s.memory.variables.fetch (s.memory.variables.cell name false) = some v := hv
    simp only [hfetch, Option.getD_some]
    exact ⟨fun r hr => ⟨r.2, hr, hstore r.2⟩, fun e he => ⟨he, Or.inl rfl⟩⟩
  | none =>
    have hfetch : s.memory.variables.fetch (s.memory.variables.cell name false) = none := hv
    simp only [hfetch, Option.getD_none]
    have hready := hstore (Value.defaultFor name)
    refine ⟨fun r hr => ⟨r.2, hr, hready.trans ?_⟩, fun e he => ⟨he, Or.inr ⟨hv, hready⟩⟩⟩
    have hagain := (s.memory.variables.store (Value.defaultFor name)
      (s.memory.variables.cell name false)).writes_store name r.2
    rwa [hready.cell] at hagain

/-- A change of an array writes the cell of its name, or fails. -/
theorem after_updateArrayCell (name : Name) (change : Grid Value → Except Error (α × Grid Value)) :
    After (updateArray name change) p s
      (fun a t => ∃ g g', s.memory.variables.peek (name.ofArray 1) = .array g ∧
        change g = .ok (a, g') ∧
        s.memory.variables.Writes (s.memory.variables.cell (name.ofArray 1) false) (.array g')
          t.memory.variables)
      fun _ t => s.memory.variables.Readies (name.ofArray 1) t.memory.variables := by
  refine (after_updateCell _ _).mono ?_ fun e t ht => ht.2
  rintro a t ⟨w, hw, ht⟩
  cases hold : s.memory.variables.peek (name.ofArray 1) with
  | array g =>
    rw [hold] at hw
    obtain ⟨r, hr, hw⟩ := exists_of_bind_eq_ok hw
    cases hw
    exact ⟨g, r.2, rfl, hr, ht⟩
  | integer | real | string | complex | record =>
    rw [hold] at hw
    cases hw

/-- A plain name takes a value into its cell. A local variable is in the cell that the name
leads to, so it makes no difference that the store asks for one. -/
theorem after_storePlain (name : Name) (v : Value) :
    After (store name v) p s
      (fun _ t => s.memory.variables.Receives (.variable name) v t.memory.variables)
      fun _ t => s.memory.variables.Readies name t.memory.variables := by
  unfold store Memory.set
  simp only [after_bind, after_memory, after_ofExcept, after_setMemory]
  cases hfit : fitTo name v with
  | error e => exact ⟨fun m hm => (by cases hm), fun _ _ => Or.inl rfl⟩
  | ok w =>
    refine ⟨fun m hm => ⟨w, hfit, ?_⟩, fun e he => by cases he⟩
    cases hm
    change s.memory.variables.Writes _ w (s.memory.variables.put name w _)
    rw [Variables.put, Variables.cell_hasLocal]
    exact s.memory.variables.writes_store name w

theorem after_storeItem (array : Name) (is : List Int64) (v : Value) :
    After (updateArray (array.ofArray is.length) fun a => do return ((), ← a.set is v)) p s
      (fun _ t => s.memory.variables.Receives (.item array is) v t.memory.variables)
      fun _ t => s.memory.variables.Readies (array.ofArray is.length) t.memory.variables := by
  have h := after_updateArrayCell (p := p) (s := s) (array.ofArray is.length)
    fun a => do return ((), ← a.set is v)
  rw [Name.ofArray_ofArray] at h
  refine h.mono ?_ fun e t ht => ht
  rintro _ t ⟨g, g', hold, hset, ht⟩
  obtain ⟨b, hb, hset⟩ := exists_of_bind_eq_ok hset
  cases hset
  refine ⟨.array g', ?_, ht⟩
  simp only [Address.name, hold, Address.replaced, hb]
  rfl

theorem after_storeMember (name : Name) (path : List Name) (v : Value) :
    After (update name fun r => do return ((), ← Value.withMember v path r)) p s
      (fun _ t => s.memory.variables.Receives (.member name path) v t.memory.variables)
      fun _ t => s.memory.variables.Readies name t.memory.variables := by
  refine (after_updateCell _ _).mono ?_ ?_
  · rintro _ t ⟨w, hw, ht⟩
    obtain ⟨u, hu, hw⟩ := exists_of_bind_eq_ok hw
    cases hw
    exact ⟨w, hu, ht⟩
  · rintro e t ⟨-, ht⟩
    exact ht

/-- A store in a location goes to its address. A store that fails leaves at most a default
behind. -/
theorem after_assignAddress (l : Location) (v : Value) :
    After (assign l v) p s
      (fun _ t => ∃ x, s.address l = .ok x ∧ s.memory.variables.Receives x v t.memory.variables)
      fun _ t => ∃ name, s.memory.variables.Readies name t.memory.variables := by
  cases l with
  | «variable» name =>
    exact (after_storePlain name v).mono (fun _ t ht => ⟨.variable name, rfl, ht⟩)
      fun e t ht => ⟨name, ht⟩
  | element array indexes =>
    change After (observe (evaluateIndexes indexes) >>= fun is =>
      updateArray (array.ofArray is.length) fun a => do return ((), ← a.set is v)) p s _ _
    rw [after_bind]
    refine (after_observe _).mono ?_ ?_
    · rintro is t ⟨his, ht⟩
      have hvars : t.memory.variables = s.memory.variables := congrArg View.variables ht
      have haddress : s.address (.element array indexes) = .ok (.item array is) := by
        simp only [State.address, State.indexes, his]
        rfl
      rw [← hvars]
      exact (after_storeItem array is v).mono (fun _ u hu => ⟨.item array is, haddress, hu⟩)
        fun e u hu => ⟨_, hu⟩
    · rintro e t ⟨-, ht⟩
      exact ⟨array, Or.inl (congrArg View.variables ht)⟩
  | member name path =>
    exact (after_storeMember name path v).mono (fun _ t ht => ⟨.member name path, rfl, ht⟩)
      fun e t ht => ⟨name, ht⟩

end Run

end LineBasic
