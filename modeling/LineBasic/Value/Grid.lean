-- Arrays. An array without axes is a list that grows to fit a write; an array
-- with axes has a fixed number of items, one for each tuple of indexes. The
-- changes work on an array in place, step by step.
import LineBasic.Action
import LineBasic.Value.Convert

namespace LineBasic

/-- Most items in one array. -/
def maxItems : Nat := 1024 * 1024

/-- Every value as one of the given type, or the first error. -/
def coerceAll (target : Kind) (values : List Value) : Except Error (List Value) :=
  values.mapM (·.coerce target)

namespace Grid

/-! ## New arrays -/

def dynamic (element : Kind) : Grid Value := { element }

/-- Axes for pairs of a lowest index and a length, and the number of items.
The last axis has neighbours side by side. Every product on the way fits 64 bits. -/
def layOut : List (Int64 × Nat) → Except Error (List Axis × Nat)
  | [] => .ok ([], 1)
  | (lower, length) :: rest => do
    let (axes, stride) ← layOut rest
    if stride * length < 0x10000000000000000 then
      return (⟨lower, length, stride⟩ :: axes, stride * length)
    else .error Error.arrayTooLarge

def dimensioned (element : Kind) (bounds : List (Int64 × Nat)) : Except Error (Grid Value) := do
  let (axes, size) ← layOut bounds
  if maxItems < size then .error Error.arrayTooLarge
  else return { element, items := Array.replicate size (Value.zero element), axes }

def ofItems (element : Kind) (items : List Value) : Except Error (Grid Value) := do
  return { element, items := (← coerceAll element items).toArray }

/-- One INTEGER for each byte. -/
def ofBytes (bytes : ByteArray) : Grid Value :=
  { element := .integer, items := bytes.data.map fun b => .integer b.toUInt64.toInt64 }

/-! ## Size and bounds -/

variable (a : Grid Value)

def isDynamic : Bool := a.axes.isEmpty

def size : Nat := a.items.size

/-- Lowest and highest index on an axis; axes count from one. -/
def bounds (axis : Nat) : Except Error (Int64 × Int64) :=
  if a.isDynamic then
    if axis = 1 then .ok (0, Int64.ofNat a.size - 1) else .error Error.noSuchDimension
  else
    match axis with
    | 0 => .error Error.noSuchDimension
    | i + 1 =>
      match a.axes[i]? with
      | some x => .ok (x.lower, Real.saturate (x.lower.toInt + (Int64.ofNat x.length - 1).toInt))
      | none => .error Error.noSuchDimension

/-! ## Indexes -/

/-- The place of a tuple of indexes, one for each axis. -/
def placeOn : List Int64 → List Axis → Except Error Nat
  | i :: is, x :: xs =>
    let offset := i.toInt - x.lower.toInt
    if 0 ≤ offset ∧ offset < x.length ∧ offset ≤ Real.greatest then do
      return offset.toNat * x.stride + (← placeOn is xs)
    else .error (Error.indexOutOfBounds i.toInt)
  | _, _ => .ok 0

/-- The place of an item among all items. -/
def place (indexes : List Int64) : Except Error Nat :=
  if a.isDynamic then
    match indexes with
    | [i] => if i < 0 then .error Error.negativeSubscript else .ok i.toInt.toNat
    | _ => .error Error.wrongSubscriptCount
  else if indexes.length ≠ a.axes.length then .error Error.wrongSubscriptCount
  else placeOn indexes a.axes

def get (indexes : List Int64) : Except Error Value := do
  let i ← a.place indexes
  match a.items[i]? with
  | some v => return v
  | none => .error (Error.indexOutOfBounds i)

/-- Makes a list long enough to have an item at a place. The new items are zeros. -/
def growing (i : Nat) : Action (Grid Value) Unit := do
  let a ← getThe (Grid Value)
  if i < a.size then return ()
  else if !a.isDynamic then throw Error.subscriptOutOfRange
  else if maxItems ≤ i then throw Error.arrayTooLarge
  else
    let zeros := Array.replicate (i + 1 - a.size) (Value.zero a.element)
    modify fun a => { a with items := a.items ++ zeros }

/-- Stores a value under a tuple of indexes. A list grows up to the index. -/
def setting (indexes : List Int64) (v : Value) : Action (Grid Value) Unit := do
  let a ← getThe (Grid Value)
  let v ← Action.ofExcept (v.coerce a.element)
  let i ← Action.ofExcept (a.place indexes)
  growing i
  modify fun a => { a with items := a.items.setIfInBounds i v }

/-- Gives every item another type. -/
def retype (element : Kind) : Except Error (Grid Value) := do
  if a.element = element then return a
  else return { a with element, items := (← coerceAll element a.items.toList).toArray }

/-! ## Both ends of a list -/

def requireDynamic : Except Error Unit :=
  if a.isDynamic then .ok () else .error Error.fixedDimensions

def requireRoom : Except Error Unit :=
  if a.size < maxItems then .ok () else .error Error.arrayTooLarge

def pushing (v : Value) : Action (Grid Value) Unit := do
  let a ← getThe (Grid Value)
  Action.ofExcept a.requireDynamic
  Action.ofExcept a.requireRoom
  let v ← Action.ofExcept (v.coerce a.element)
  modify fun a => { a with items := a.items.push v }

def unshifting (v : Value) : Action (Grid Value) Unit := do
  let a ← getThe (Grid Value)
  Action.ofExcept a.requireDynamic
  Action.ofExcept a.requireRoom
  let v ← Action.ofExcept (v.coerce a.element)
  modify fun a => { a with items := #[v] ++ a.items }

/-- Takes the last item away. An empty array yields a zero. -/
def popping : Action (Grid Value) Value := do
  let a ← getThe (Grid Value)
  Action.ofExcept a.requireDynamic
  modify fun a => { a with items := a.items.pop }
  return a.items.back?.getD (Value.zero a.element)

/-- Takes the first item away. An empty array yields a zero. -/
def shifting : Action (Grid Value) Value := do
  let a ← getThe (Grid Value)
  Action.ofExcept a.requireDynamic
  modify fun a => { a with items := a.items.extract 1 a.items.size }
  return a.items[0]?.getD (Value.zero a.element)

/-! ## Changes that succeed -/

def set (indexes : List Int64) (v : Value) : Except Error (Grid Value) :=
  (setting indexes v).changed a

def push (v : Value) : Except Error (Grid Value) := (pushing v).changed a

def unshift (v : Value) : Except Error (Grid Value) := (unshifting v).changed a

/-- The last item and the array without it. -/
def pop : Except Error (Value × Grid Value) := popping.granted a

/-- The first item and the array without it. -/
def shift : Except Error (Value × Grid Value) := shifting.granted a

/-- A list that was made long enough gets the item at its end. -/
theorem setIfInBounds_grown {items : Array Value} {i : Nat} (hi : items.size ≤ i) (z w : Value) :
    (items ++ Array.replicate (i + 1 - items.size) z).setIfInBounds i w =
      (items ++ Array.replicate (i - items.size) z).push w := by
  have hsize : (items ++ Array.replicate (i - items.size) z).size = i := by
    rw [Array.size_append, Array.size_replicate]
    omega
  rw [Nat.succ_sub hi, Array.replicate_succ, Array.append_push]
  have hlt : i < ((items ++ Array.replicate (i - items.size) z).push z).size := by
    rw [Array.size_push, hsize]
    omega
  rw [Array.setIfInBounds, dif_pos hlt, Array.set_push, dif_neg (by omega)]

theorem set_def (indexes : List Int64) (v : Value) : a.set indexes v = do
    let v ← v.coerce a.element
    let i ← a.place indexes
    if i < a.size then return { a with items := a.items.setIfInBounds i v }
    else if !a.isDynamic then .error Error.subscriptOutOfRange
    else if maxItems ≤ i then .error Error.arrayTooLarge
    else
      let gap := Array.replicate (i - a.size) (Value.zero a.element)
      return { a with items := (a.items ++ gap).push v } := by
  simp only [set, setting, growing, Action.changed_bind, Action.granted_bind, Action.granted_getThe,
    Action.granted_ofExcept, Action.granted_ite, Action.granted_pure, Action.granted_throw,
    Action.granted_modify, Action.changed_modify, pure_bind, bind_map_left]
  congr
  funext v
  congr
  funext i
  by_cases hi : i < a.size
  · rw [if_pos hi, if_pos hi]
    rfl
  · rw [if_neg hi, if_neg hi]
    split
    · rfl
    · split
      · rfl
      · simp only [size, pure_bind, setIfInBounds_grown (Nat.not_lt.1 hi)]

theorem push_def (v : Value) : a.push v = do
    a.requireDynamic
    a.requireRoom
    return { a with items := a.items.push (← v.coerce a.element) } := by
  simp only [push, pushing, Action.changed_bind, Action.granted_getThe, Action.granted_ofExcept,
    Action.changed_modify, pure_bind, bind_map_left]

theorem unshift_def (v : Value) : a.unshift v = do
    a.requireDynamic
    a.requireRoom
    return { a with items := #[← v.coerce a.element] ++ a.items } := by
  simp only [unshift, unshifting, Action.changed_bind, Action.granted_getThe, Action.granted_ofExcept,
    Action.changed_modify, pure_bind, bind_map_left]

theorem pop_def : a.pop = do
    a.requireDynamic
    return (a.items.back?.getD (Value.zero a.element), { a with items := a.items.pop }) := by
  simp only [pop, popping, Action.granted_bind, Action.granted_getThe, Action.granted_ofExcept,
    Action.granted_modify, Action.granted_pure, pure_bind, bind_map_left]

theorem shift_def : a.shift = do
    a.requireDynamic
    return (a.items[0]?.getD (Value.zero a.element),
      { a with items := a.items.extract 1 a.items.size }) := by
  simp only [shift, shifting, Action.granted_bind, Action.granted_getThe, Action.granted_ofExcept,
    Action.granted_modify, Action.granted_pure, pure_bind, bind_map_left]

end Grid

end LineBasic
