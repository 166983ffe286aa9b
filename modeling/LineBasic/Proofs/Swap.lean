-- What SWAP does. It reads two locations and then stores in both, and for the second store
-- it works out once more where that location leads. So it exchanges two values, or leaves
-- all variables as they were, as long as its first store neither changes an index of the
-- second location nor comes before a value that does not fit there.
import LineBasic.Proofs.Reading
import LineBasic.Proofs.Sites
import LineBasic.Proofs.Storage

namespace LineBasic

/-! ## Items and members -/

namespace Value

variable {v w new : Value}

/-- The way that a path of members takes. -/
def ways (path : List Name) : List Part := path.map fun field => .member field.key

end Value

theorem Grid.set_eq {g : Grid Value} {is : List Int64} {i : Nat} {v u : Value}
    (hp : g.place is = .ok i) (hi : g.items[i]? = some u) :
    g.set is v = (v.coerce g.element).map fun w => { g with items := g.items.setIfInBounds i w } := by
  have hlt : i < g.size := (Array.getElem?_eq_some_iff.1 hi).1
  rw [Grid.set_def]
  cases v.coerce g.element with
  | error e => rfl
  | ok w =>
    simp only [hp, Except.map]
    change (if i < g.size then _ else _) = _
    rw [if_pos hlt]
    rfl

namespace Eval

end Eval

/-! ## Where a location leads -/

/-- A site, and how a value is made to fit there. -/
structure Seat where
  site : Site
  fit : Value → Except Error Value

/-- Where an item of an array variable is. -/
def Variables.itemSeat? (vars : Variables) (array : Name) (is : List Int64) : Option Seat :=
  match vars.lookup array with
  | some (.array g) =>
    match g.place is with
    | .ok i => some ⟨⟨vars.cell array false, [.item i]⟩, fun v => v.coerce g.element⟩
    | .error _ => none
  | _ => none

namespace State

/-- What a location is read as. -/
def reads (s : State) (l : Location) : Except Error Value := outcomeOf (l.read s.view s.memory.trail)

/-- What indexes come to. -/
def indexes (s : State) (es : List Expression) : Except Error (List Int64) :=
  outcomeOf (evaluateIndexes es s.view s.memory.trail)

/-- Where a location leads. An element leads nowhere if its indexes fail or do not belong
to its array. -/
def seat? (s : State) : Location → Option Seat
  | .variable name => some ⟨⟨s.memory.variables.cell name false, []⟩, fitTo name⟩
  | .element name indexes =>
    match s.indexes indexes with
    | .ok is => s.memory.variables.itemSeat? (name.ofArray is.length) is
    | .error _ => none
  | .member name path => some ⟨⟨s.memory.variables.cell name false, Value.ways path⟩, .ok⟩

variable {s t : State} {l : Location}

theorem reads_element (name : Name) (indexes : List Expression) :
    s.reads (.element name indexes) = (do
      let is ← s.indexes indexes
      s.memory.variables.element (name.ofArray is.length) is) := by
  change outcomeOf ((evaluateIndexes indexes >>= fun is =>
    Eval.element (name.ofArray is.length) is) s.view s.memory.trail) = _
  unfold State.indexes
  cases hr : evaluateIndexes indexes s.view s.memory.trail with
  | error e t =>
    rw [bind_of_error hr]
    rfl
  | ok is t =>
    rw [bind_of_ok hr]
    change outcomeOf (Eval.ofExcept (s.memory.variables.element (name.ofArray is.length) is) _ _) =
      s.memory.variables.element (name.ofArray is.length) is
    cases s.memory.variables.element (name.ofArray is.length) is <;> rfl

theorem reads_member (name : Name) (path : List Name) :
    s.reads (.member name path) = (s.memory.variables.peek name).memberAt path := by
  change outcomeOf (Eval.ofExcept ((s.memory.variables.peek name).memberAt path) _ _) = _
  cases (s.memory.variables.peek name).memberAt path <;> rfl

end State

/-! ## Reading and storing -/

namespace Run

variable {p : Program} {s : State}

theorem after_observe {α : Type} (x : Eval α) :
    After (observe x) p s
      (fun a t => outcomeOf (x s.view s.memory.trail) = .ok a ∧ t.view = s.view)
      fun e t => outcomeOf (x s.view s.memory.trail) = .error e ∧ t.view = s.view := by
  unfold After observe State.observe
  cases x s.view s.memory.trail with
  | ok a t => exact ⟨rfl, rfl⟩
  | error e t => exact ⟨rfl, rfl⟩

end Run

/-! ## SWAP -/

/-- What a SWAP works with: where its locations lead, and what they are read as, two values
of one type. -/
structure Offers (s : State) (a b : Location) (x y : Seat) (v w : Value) : Prop where
  first : s.seat? a = some x
  second : s.seat? b = some y
  reads_first : s.reads a = .ok v
  reads_second : s.reads b = .ok w
  kinds : v.kind = w.kind

theorem Offers.unique {s : State} {a b : Location} {x y x' y' : Seat} {v w v' w' : Value}
    (h : Offers s a b x y v w) (h' : Offers s a b x' y' v' w') :
    x = x' ∧ y = y' ∧ v = v' ∧ w = w' :=
  ⟨Option.some_inj.1 (h.first.symm.trans h'.first), Option.some_inj.1 (h.second.symm.trans h'.second),
    Except.ok.inj (h.reads_first.symm.trans h'.reads_first),
    Except.ok.inj (h.reads_second.symm.trans h'.reads_second)⟩

namespace State

variable {s : State} {a b : Location} {p : Program}

end State

end LineBasic
