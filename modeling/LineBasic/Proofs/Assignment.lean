-- What an assignment changes. It writes one location and leaves alone what does not overlap
-- it, or it writes none. A list that grows gets zeros in the gap besides, and a path gets
-- the structures that it lacks on its way.
import LineBasic.Proofs.Addresses

namespace LineBasic

/-! ## Constants -/

mutual

/-- The expression is made of literals. -/
def Expression.isConstant : Expression → Bool
  | .integer _ | .real _ | .string _ | .imaginary _ => true
  | .variable _ | .element .. | .call .. => false
  | .member e _ => e.isConstant
  | .array items => Expression.allConstant items
  | .record members => Expression.membersConstant members
  | .negate e | .not e => e.isConstant
  | .binary _ l r => l.isConstant && r.isConstant

def Expression.allConstant : List Expression → Bool
  | [] => true
  | e :: es => e.isConstant && Expression.allConstant es

def Expression.membersConstant : List (Name × Expression) → Bool
  | [] => true
  | (_, e) :: rest => e.isConstant && Expression.membersConstant rest

end

/-- The indexes of the location are constants. -/
def Location.isConstant (l : Location) : Bool := Expression.allConstant l.indexes

namespace Eval

variable {α β : Type}

/-- A computation that looks at nothing and leaves nothing behind. -/
def Settled (x : Eval α) : Prop := ∃ r, x = ofExcept r

theorem settled_pure (a : α) : Settled (pure a : Eval α) := ⟨.ok a, rfl⟩

theorem settled_ofExcept (r : Except Error α) : Settled (ofExcept r) := ⟨r, rfl⟩

theorem settled_bind {x : Eval α} {f : α → Eval β} (hx : Settled x) (hf : ∀ a, Settled (f a)) :
    Settled (x >>= f) := by
  obtain ⟨r, rfl⟩ := hx
  cases r with
  | ok a =>
    obtain ⟨r, hr⟩ := hf a
    exact ⟨r, hr⟩
  | error e => exact ⟨.error e, rfl⟩

mutual

theorem settled_evaluate : (e : Expression) → e.isConstant = true → Settled (evaluate e)
  | .integer _, _ | .real _, _ | .string _, _ | .imaginary _, _ => settled_pure _
  | .member e field, h => settled_bind (settled_evaluate e h) fun _ => settled_ofExcept _
  | .array items, h =>
    settled_bind (settled_evaluateAll items h) fun _ =>
      settled_bind (settled_ofExcept _) fun _ => settled_pure _
  | .record members, h =>
    settled_bind (settled_evaluateMembers {} members h) fun _ => settled_pure _
  | .negate e, h => settled_bind (settled_evaluate e h) fun _ => settled_ofExcept _
  | .not e, h => settled_bind (settled_evaluate e h) fun _ => settled_ofExcept _
  | .binary op l r, h => by
    obtain ⟨hl, hr⟩ := (Bool.and_eq_true _ _).mp h
    exact settled_bind (settled_evaluate l hl) fun _ =>
      settled_bind (settled_evaluate r hr) fun _ => settled_ofExcept _

theorem settled_evaluateAll :
    (es : List Expression) → Expression.allConstant es = true → Settled (evaluateAll es)
  | [], _ => settled_pure _
  | e :: es, h => by
    obtain ⟨he, hes⟩ := (Bool.and_eq_true _ _).mp h
    exact settled_bind (settled_evaluate e he) fun _ =>
      settled_bind (settled_evaluateAll es hes) fun _ => settled_pure _

theorem settled_evaluateMembers :
    (sofar : Table Name Value) → (members : List (Name × Expression)) →
    Expression.membersConstant members = true → Settled (evaluateMembers sofar members)
  | _, [], _ => settled_pure _
  | sofar, (name, e) :: rest, h => by
    obtain ⟨he, hrest⟩ := (Bool.and_eq_true _ _).mp h
    exact settled_bind (settled_evaluate e he) fun v => settled_evaluateMembers _ rest hrest

end

theorem settled_evaluateIndexes :
    (es : List Expression) → Expression.allConstant es = true → Settled (evaluateIndexes es)
  | [], _ => settled_pure _
  | e :: es, h => by
    obtain ⟨he, hes⟩ := (Bool.and_eq_true _ _).mp h
    exact settled_bind (settled_evaluate e he) fun _ =>
      settled_bind (settled_ofExcept _) fun _ =>
        settled_bind (settled_evaluateIndexes es hes) fun _ => settled_pure _

theorem Settled.outcome_eq {x : Eval α} (hx : Settled x) (v w : View) (t u : Trail) :
    outcomeOf (x v t) = outcomeOf (x w u) := by
  obtain ⟨r, rfl⟩ := hx
  cases r <;> rfl

end Eval

/-- A location with constant indexes leads to one address in all states. -/
theorem State.address_eq {l : Location} (hl : l.isConstant = true) (s t : State) :
    s.address l = t.address l := by
  cases l with
  | «variable» name => rfl
  | element array indexes =>
    have hsame := (Eval.settled_evaluateIndexes indexes hl).outcome_eq s.view t.view
      s.memory.trail t.memory.trail
    simp only [address, State.indexes, hsame]
  | member name path => rfl

/-! ## Items -/

namespace Grid

variable {g g' : Grid Value} {is js : List Int64} {i j : Nat} {v w : Value}

/-- A store in an array puts an item at its place, and zeros in the gap before it. -/
theorem exists_of_set (h : g.set is v = .ok g') :
    ∃ w i items, v.coerce g.element = .ok w ∧ g.place is = .ok i ∧ g' = { g with items } ∧
      ∀ j, items[j]? = if j = i then some w
        else if g.size ≤ j ∧ j < i then some (Value.zero g.element) else g.items[j]? := by
  rw [set_def] at h
  obtain ⟨w, hw, h⟩ := exists_of_bind_eq_ok h
  obtain ⟨i, hi, h⟩ := exists_of_bind_eq_ok h
  simp only [pure, Except.pure] at h
  have hsize : g.size = g.items.size := rfl
  split at h
  · rename_i hlt
    cases h
    refine ⟨w, i, _, hw, hi, rfl, fun j => ?_⟩
    rw [Array.getElem?_setIfInBounds]
    by_cases hj : j = i
    · rw [if_pos hj, if_pos hj.symm, if_pos (by omega)]
    · rw [if_neg hj, if_neg (Ne.symm hj), if_neg (by omega)]
  · rename_i hout
    split at h
    · cases h
    · split at h
      · cases h
      · cases h
        refine ⟨w, i, _, hw, hi, rfl, fun j => ?_⟩
        have hgrown :
            (g.items ++ Array.replicate (i - g.size) (Value.zero g.element)).size = i := by
          rw [Array.size_append, Array.size_replicate]
          omega
        rw [Array.getElem?_push, hgrown]
        by_cases hj : j = i
        · rw [if_pos hj, if_pos hj]
        · rw [if_neg hj, if_neg hj, Array.getElem?_append, Array.getElem?_replicate]
          by_cases hin : j < g.items.size
          · rw [if_pos hin, if_neg (by omega)]
          · rw [if_neg hin]
            by_cases hgap : j < i
            · rw [if_pos (by omega), if_pos ⟨by omega, hgap⟩]
            · rw [if_neg (by omega), if_neg (by omega), Array.getElem?_eq_none (by omega)]

theorem get_of_place (hp : g.place is = .ok i) (hi : g.items[i]? = some v) : g.get is = .ok v := by
  unfold get
  rw [hp]
  simp only [bind, Except.bind, hi]
  rfl

/-- An array whose items at a place are the same gives the same there. -/
theorem get_congr {items : Array Value} (h : ∀ j, g.place js = .ok j → items[j]? = g.items[j]?) :
    Grid.get { g with items } js = g.get js := by
  have hplace : Grid.place { g with items } js = g.place js := rfl
  unfold get
  rw [hplace]
  cases hp : g.place js with
  | error e => rfl
  | ok j => simp only [bind, Except.bind, h j hp]

end Grid

/-! ## Members -/

/-- How a location with a path of members is read when something else was stored: as before,
or it lacks another member of its path than before. -/
def ReadsAlike (path : List Name) (old new : Except Error Value) : Prop :=
  new = old ∨ ∃ f ∈ path, ∃ f' ∈ path,
    old = .error (Error.noMember f) ∧ new = .error (Error.noMember f')

namespace ReadsAlike

variable {path : List Name} {old new : Except Error Value}

theorem refl (r : Except Error Value) : ReadsAlike path r r := Or.inl rfl

theorem cons (field : Name) (h : ReadsAlike path old new) : ReadsAlike (field :: path) old new := by
  rcases h with h | ⟨f, hf, f', hf', h⟩
  · exact Or.inl h
  · exact Or.inr ⟨f, List.mem_cons_of_mem _ hf, f', List.mem_cons_of_mem _ hf', h⟩

/-- A path that lacked a member still lacks one. -/
theorem lacks {f : Name} (h : ReadsAlike path (.error (Error.noMember f)) new) (hf : f ∈ path) :
    ∃ f' ∈ path, new = .error (Error.noMember f') := by
  rcases h with h | ⟨_, -, f', hf', -, h⟩
  · exact ⟨f, hf, h⟩
  · exact ⟨f', hf', h⟩

end ReadsAlike

namespace Value

variable {v w new u : Value} {m : Table Name Value} {field : Name} {path rest other : List Name}

theorem memberAt_cons (h : m.get? field.key = some u) :
    (Value.record m).memberAt (field :: rest) = u.memberAt rest := by
  rw [memberAt]
  simp only [member, h]
  rfl

theorem memberAt_missing (h : m.get? field.key = none) :
    (Value.record m).memberAt (field :: rest) = .error (Error.noMember field) := by
  rw [memberAt]
  simp only [member, h]
  rfl

theorem memberAt_insert_ne {key : Name} (h : key ≠ field.key) :
    (Value.record (m.insert key u)).memberAt (field :: rest) =
      (Value.record m).memberAt (field :: rest) := by
  rw [memberAt, memberAt]
  simp only [member, m.get?_insert_ne h]

/-- A member is stored in a structure, and the first member on its path changes. -/
theorem exists_of_withMember (h : withMember new (field :: rest) v = .ok w) :
    ∃ m u, v = .record m ∧ w = .record (m.insert field.key u) := by
  cases v with
  | record m =>
    cases rest with
    | nil =>
      cases h
      exact ⟨m, new, rfl, rfl⟩
    | cons next rest =>
      obtain ⟨u, -, h⟩ := exists_of_bind_eq_ok h
      cases h
      exact ⟨m, u, rfl, rfl⟩
  | integer | real | string | complex | array => cases rest <;> cases h

/-- What was stored at the end of a path is found there. -/
theorem memberAt_withMember (h : withMember new path v = .ok w) : w.memberAt path = .ok new := by
  induction path generalizing v w with
  | nil => cases h
  | cons field rest ih =>
    obtain ⟨m, _, rfl, -⟩ := exists_of_withMember h
    cases rest with
    | nil =>
      cases h
      exact memberAt_cons (m.get?_insert_self field.key new)
    | cons next rest =>
      obtain ⟨u, hu, h⟩ := exists_of_bind_eq_ok h
      cases h
      rw [memberAt_cons (m.get?_insert_self field.key u)]
      exact ih hu

/-- A path that leaves the stored one lacks at most another member: the structures that the
stored path made have only the members that it goes through. -/
theorem memberAt_withMember_apart (h : withMember new path v = .ok w)
    (ha : ¬ ways path <+: ways other) (hb : ¬ ways other <+: ways path) :
    ReadsAlike other (v.memberAt other) (w.memberAt other) := by
  induction path generalizing v w other with
  | nil => cases h
  | cons field rest ih =>
    obtain ⟨m, _, rfl, hw⟩ := exists_of_withMember h
    cases other with
    | nil => exact absurd List.nil_prefix hb
    | cons first others =>
      by_cases hkey : field.key = first.key
      · have hrest : ¬ ways rest <+: ways others ∧ ¬ ways others <+: ways rest :=
          ⟨fun hp => ha (List.cons_prefix_cons.2 ⟨congrArg _ hkey, hp⟩),
            fun hp => hb (List.cons_prefix_cons.2 ⟨congrArg _ hkey.symm, hp⟩)⟩
        cases rest with
        | nil => exact absurd List.nil_prefix hrest.1
        | cons next rest =>
          obtain ⟨u, hu, h⟩ := exists_of_bind_eq_ok h
          cases h
          rw [hkey] at hu ⊢
          rw [memberAt_cons (m.get?_insert_self first.key u)]
          have hinner := ih hu hrest.1 hrest.2
          cases hget : m.get? first.key with
          | some inner =>
            rw [hget] at hinner
            rw [memberAt_cons hget]
            exact hinner.cons first
          | none =>
            -- The structure was made just now, so the other path lacks its next member.
            rw [hget] at hinner
            rw [memberAt_missing hget]
            cases others with
            | nil => exact absurd List.nil_prefix hrest.2
            | cons second others =>
              rw [Option.getD_none, memberAt_missing (Table.get?_empty _)] at hinner
              obtain ⟨f, hf, hlacks⟩ := hinner.lacks List.mem_cons_self
              exact Or.inr ⟨first, List.mem_cons_self, f, List.mem_cons_of_mem _ hf, rfl, hlacks⟩
      · rw [hw, memberAt_insert_ne hkey]
        exact .refl _

end Value

/-! ## Addresses in one variable -/

namespace Address

variable {x y : Address} {old new v : Value}

/-- The members that an address goes through. -/
def path : Address → List Name
  | .member _ path => path
  | .variable _ | .item .. => []

/-- Of two addresses in a variable with the given value, one holds the other. -/
def Overlaps (v : Value) : Address → Address → Prop
  | .variable _, _ | _, .variable _ => True
  | .item _ is, .item _ js => ∃ g i, v = .array g ∧ g.place is = .ok i ∧ g.place js = .ok i
  | .member _ path, .member _ path' =>
    Value.ways path <+: Value.ways path' ∨ Value.ways path' <+: Value.ways path
  | .item .., .member _ path | .member _ path, .item .. => path = []

/-- The second address is an item between the end of the list and the first address. -/
def InGap (v : Value) : Address → Address → Prop
  | .item _ is, .item _ js =>
    ∃ g i j, v = .array g ∧ g.place is = .ok i ∧ g.place js = .ok j ∧ g.size ≤ j ∧ j < i
  | _, _ => False

/-- A store at an address is read back there. -/
theorem within_replaced (h : x.replaced old v = .ok new) :
    ∃ w, x.fit old v = .ok w ∧ x.within new = .ok w := by
  cases x with
  | «variable» name => exact ⟨new, h, rfl⟩
  | item array is =>
    cases old with
    | array g =>
      obtain ⟨g', hset, h⟩ := exists_of_bind_eq_ok h
      cases h
      obtain ⟨w, i, items, hw, hi, rfl, hitems⟩ := Grid.exists_of_set hset
      refine ⟨w, hw, Grid.get_of_place (show Grid.place { g with items } is = .ok i from hi) ?_⟩
      rw [hitems, if_pos rfl]
    | integer | real | string | complex | record => cases h
  | member name path => exact ⟨v, rfl, Value.memberAt_withMember h⟩

/-- The gap that a list grows over is filled with zeros. -/
theorem within_replaced_gap (h : x.replaced old v = .ok new) (hg : InGap old x y) :
    ∃ g, old = .array g ∧ y.within new = .ok (Value.zero g.element) := by
  cases x with
  | item array is =>
    cases y with
    | item array' js =>
      obtain ⟨g, i, j, rfl, hi, hj, hsize, hlt⟩ := hg
      obtain ⟨g', hset, h⟩ := exists_of_bind_eq_ok h
      cases h
      obtain ⟨w, i', items, -, hi', rfl, hitems⟩ := Grid.exists_of_set hset
      cases hi.symm.trans hi'
      refine ⟨g, rfl, Grid.get_of_place (show Grid.place { g with items } js = .ok j from hj) ?_⟩
      rw [hitems, if_neg (Nat.ne_of_lt hlt), if_pos ⟨hsize, hlt⟩]
    | «variable» | member => cases hg
  | «variable» | member => cases hg

/-- What does not overlap an address and is in no gap is read as before. -/
theorem within_replaced_apart (h : x.replaced old v = .ok new) (ho : ¬ Overlaps old x y)
    (hg : ¬ InGap old x y) : ReadsAlike y.path (y.within old) (y.within new) := by
  cases x with
  | «variable» name => cases y <;> exact absurd trivial ho
  | item array is =>
    cases old with
    | array g =>
      obtain ⟨g', hset, h⟩ := exists_of_bind_eq_ok h
      cases h
      obtain ⟨w, i, items, -, hi, rfl, hitems⟩ := Grid.exists_of_set hset
      cases y with
      | «variable» name => exact absurd trivial ho
      | item array' js =>
        refine Or.inl (Grid.get_congr fun j hj => ?_)
        have hne : j ≠ i := fun hji => ho ⟨g, i, rfl, hi, hji ▸ hj⟩
        rw [hitems, if_neg hne, if_neg fun hgap => hg ⟨g, i, j, rfl, hi, hj, hgap.1, hgap.2⟩]
      | member name path =>
        -- An array has no members, whatever its items are.
        cases path with
        | nil => exact absurd rfl ho
        | cons field rest => exact .refl _
    | integer | real | string | complex | record => cases h
  | member name path =>
    cases y with
    | «variable» name => exact absurd trivial ho
    | item array is =>
      -- A structure has no items, whatever its members are.
      cases path with
      | nil => exact absurd rfl ho
      | cons field rest =>
        obtain ⟨m, u, rfl, rfl⟩ := Value.exists_of_withMember h
        exact .refl _
    | member name' path' =>
      exact Value.memberAt_withMember_apart h (fun hp => ho (Or.inl hp)) fun hp => ho (Or.inr hp)

end Address

/-! ## Assignment -/

namespace Variables

variable {old new : Variables} {x y : Address} {depth : Nat}

/-- A call at some depth sees an address in the variable of another address. -/
def Shares (vars : Variables) (x : Address) (depth : Nat) (y : Address) : Prop :=
  (vars.cutTo depth).cell y.name false = vars.cell x.name false

/-- A call at some depth sees with `y` something that `x` is part of or that is part of `x`. -/
def Overlaps (vars : Variables) (x : Address) (depth : Nat) (y : Address) : Prop :=
  vars.Shares x depth y ∧ x.Overlaps (vars.peek x.name) y

/-- A call at some depth sees with `y` an item between the end of a list and `x`. -/
def InGap (vars : Variables) (x : Address) (depth : Nat) (y : Address) : Prop :=
  vars.Shares x depth y ∧ x.InGap (vars.peek x.name) y

/-- What becomes of all other locations, seen from any call, when something is stored at an
address. -/
structure KeepsRest (old : Variables) (x : Address) (new : Variables) : Prop where
  gap : ∀ depth y, old.InGap x depth y →
    ∃ g, old.peek x.name = .array g ∧ (new.cutTo depth).read y = .ok (Value.zero g.element)
  apart : ∀ depth y, ¬ old.Overlaps x depth y → ¬ old.InGap x depth y →
    ReadsAlike y.path ((old.cutTo depth).read y) ((new.cutTo depth).read y)

/-- What was stored is read back as the address takes it. -/
theorem Receives.read {v : Value} (h : old.Receives x v new) :
    ∃ w, x.fit (old.peek x.name) v = .ok w ∧ new.read x = .ok w := by
  obtain ⟨u, hx, hw⟩ := h
  obtain ⟨w, hfit, hwithin⟩ := Address.within_replaced hx
  refine ⟨w, hfit, ?_⟩
  rw [read_eq, hw.peek_self rfl, hwithin]

theorem Receives.keepsRest {v : Value} (h : old.Receives x v new) (hu : old.Uniform) :
    old.KeepsRest x new where
  gap depth y hgap := by
    obtain ⟨w, hx, hw⟩ := h
    obtain ⟨g, hg, hzero⟩ := Address.within_replaced_gap hx hgap.2
    refine ⟨g, hg, ?_⟩
    rw [read_eq, hw.peek_of_eq hgap.1, hzero]
  apart depth y ho hg := by
    obtain ⟨w, hx, hw⟩ := h
    rw [read_eq, read_eq]
    by_cases hshares : old.Shares x depth y
    · rw [hw.peek_of_eq hshares, hu.peek_eq hshares]
      exact Address.within_replaced_apart hx (fun h => ho ⟨hshares, h⟩) fun h => hg ⟨hshares, h⟩
    · rw [hw.peek_of_ne hshares]
      exact .refl _

end Variables

/-- An assignment writes one location or none. If it goes through, its location holds the
value as the location takes it, a gap that a list grew over holds zeros, and every other
location that does not overlap is read as before from every call. If it fails, every
location is. -/
theorem assignment_writes_one_location_or_none (p : Program) (s : State) (l : Location) (v : Value)
    (hs : s.memory.variables.Faithful) (hl : l.isConstant = true) :
    Run.After (Run.assign l v) p s
      (fun _ t => ∃ x w, s.address l = .ok x ∧ x.fit (s.memory.variables.peek x.name) v = .ok w ∧
        t.reads l = .ok w ∧ s.memory.variables.KeepsRest x t.memory.variables)
      fun _ t => s.memory.variables.SeenAlike t.memory.variables := by
  refine (Run.after_assignAddress l v).mono ?_ ?_
  · rintro _ t ⟨x, hx, hreceives⟩
    obtain ⟨w, hfit, hread⟩ := hreceives.read
    refine ⟨x, w, hx, hfit, ?_, hreceives.keepsRest hs.uniform⟩
    rw [State.reads_eq, State.address_eq hl t s, hx]
    exact hread
  · rintro e t ⟨name, ht⟩
    exact ht.seenAlike hs.uniform

/-- A call stores in a list of its caller. -/
theorem a_call_stores_past_the_end_of_a_list :
    let scope : Scope :=
      { aliases := Table.ofList [(⟨['N', '%', '[', ']']⟩, ⟨['a', '%', '[', ']']⟩)] }
    let list := Value.array { element := .integer, items := #[.integer 7] }
    let vars : Variables :=
      { globals := Table.ofList [(⟨['A', '%', '[', ']']⟩, list)]
        scopes := { items := [scope], note := "TOO MANY NESTED CALLS", limit := maxCalls } }
    let s : State := { memory := { «variables» := vars, trail := { random := .ofSeed 7 } } }
    let l := Location.element ⟨['n', '%']⟩ [.integer 2]
    ∃ t, Run.assign l (.integer 5) (.ofLines []) s = .ok () t ∧ t.reads l = .ok (.integer 5) ∧
      (t.memory.variables.cutTo 0).read (.item ⟨['a', '%']⟩ [0]) = .ok (.integer 7) ∧
      (t.memory.variables.cutTo 0).read (.item ⟨['a', '%']⟩ [1]) = .ok (.integer 0) := by
  intro scope list vars s l
  have hf : s.memory.variables.Faithful := by
    intro other hmem
    cases List.mem_singleton.1 hmem
    intro e he
    cases List.mem_singleton.1 he
    exact ⟨rfl, rfl⟩
  have h := assignment_writes_one_location_or_none (.ofLines []) s l (.integer 5) hf rfl
  unfold Run.After at h
  cases hx : Run.assign l (.integer 5) (.ofLines []) s with
  | error e t => cases hx
  | ok u t =>
    rw [hx] at h
    obtain ⟨x, w, haddress, hfit, hreads, hrest⟩ := h
    cases haddress
    cases hfit
    have hfirst :
        ¬ s.memory.variables.Overlaps (.item ⟨['n', '%']⟩ [2]) 0 (.item ⟨['a', '%']⟩ [0]) := by
      rintro ⟨-, g, i, hg, hi, hj⟩
      cases hg
      cases hi
      cases hj
    have hheld :
        ¬ s.memory.variables.InGap (.item ⟨['n', '%']⟩ [2]) 0 (.item ⟨['a', '%']⟩ [0]) := by
      rintro ⟨-, g, i, j, hg, hi, hj, hsize, hlt⟩
      cases hg
      cases hj
      cases hsize
    refine ⟨t, rfl, hreads, ?_, ?_⟩
    · obtain hsame | ⟨f, hf, -⟩ := hrest.apart 0 _ hfirst hheld
      · exact hsame
      · cases hf
    · obtain ⟨g, hg, hzero⟩ := hrest.gap 0 (.item ⟨['a', '%']⟩ [1])
        ⟨rfl, _, 2, 1, rfl, rfl, rfl, by decide, by decide⟩
      cases hg
      exact hzero

/-- A store that makes a structure on its way changes which member another path lacks. -/
theorem a_store_changes_what_another_path_lacks :
    let s : State := { memory := .ofSeed 7 }
    let x := Address.member ⟨['p']⟩ [⟨['x']⟩, ⟨['y']⟩]
    let l := Location.member ⟨['p']⟩ [⟨['x']⟩, ⟨['y']⟩]
    let other := Location.member ⟨['p']⟩ [⟨['x']⟩, ⟨['z']⟩]
    s.memory.variables.Faithful ∧ l.isConstant = true ∧ s.address l = .ok x ∧
      (∀ y, s.address other = .ok y → ¬ s.memory.variables.Overlaps x 0 y) ∧
      ∃ t, Run.assign l (.integer 1) (.ofLines []) s = .ok () t ∧
        s.reads other = .error (Error.noMember ⟨['x']⟩) ∧
        t.reads other = .error (Error.noMember ⟨['z']⟩) := by
  intro s x l other
  refine ⟨fun scope hmem => (nomatch hmem), rfl, rfl, fun y hy => ?_, _, rfl, rfl, rfl⟩
  cases hy
  rintro ⟨-, hp | hp⟩
  · revert hp
    decide
  · revert hp
    decide

end LineBasic
