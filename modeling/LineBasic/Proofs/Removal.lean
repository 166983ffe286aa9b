-- What POP and SHIFT do. They take an item off an end of a list and then store it. An item
-- that cannot be stored is lost, and that is all that goes wrong when they fail.
import LineBasic.Proofs.Assignment

namespace LineBasic

/-- The end of a list that an item is taken off. -/
inductive ListEnd where
  | last
  | first
deriving DecidableEq

namespace ListEnd

/-- The statement that takes an item off this end. -/
def statement : ListEnd → Name → Location → Statement
  | .last => .pop
  | .first => .shift

def take : ListEnd → Grid Value → Except Error (Value × Grid Value)
  | .last => Grid.pop
  | .first => Grid.shift

/-- The items of a list that has one more at this end. -/
def joined : ListEnd → Value → List Value → List Value
  | .last, a, rest => rest ++ [a]
  | .first, a, rest => a :: rest

variable {e : ListEnd} {g g' : Grid Value} {a : Value}

theorem execute_statement (e : ListEnd) (name : Name) (target : Location) :
    Run.execute (e.statement name target) = (do
      Run.assign target (← Run.updateArray name e.take)
      return .next) := by
  cases e <;> rfl

/-- The item that is taken was at its end, unless there was none. -/
theorem exists_of_take (h : e.take g = .ok (a, g')) :
    ∃ items : List Value, g' = { g with items := items.toArray } ∧
      (g.items = #[] → items = []) ∧ (g.items ≠ #[] → g.items.toList = e.joined a items) := by
  obtain ⟨element, ⟨items⟩, axes⟩ := g
  cases e with
  | last =>
    rw [take, Grid.pop_def] at h
    obtain ⟨_, -, h⟩ := exists_of_bind_eq_ok h
    cases h
    rcases List.eq_nil_or_concat items with rfl | ⟨rest, b, rfl⟩
    · exact ⟨[], rfl, fun _ => rfl, fun hne => absurd rfl hne⟩
    · exact ⟨rest, by simp, by simp, by simp [joined]⟩
  | first =>
    rw [take, Grid.shift_def] at h
    obtain ⟨_, -, h⟩ := exists_of_bind_eq_ok h
    cases h
    cases items with
    | nil => exact ⟨[], rfl, fun _ => rfl, fun hne => absurd rfl hne⟩
    | cons b rest => exact ⟨rest, by simp, by simp, by simp [joined]⟩

/-- An item is taken off a list that has some. -/
structure Takes (e : ListEnd) (p : Program) (name : Name) (s : State) (g : Grid Value) (a : Value)
    (rest : List Value) (mid : State) : Prop where
  list : s.memory.variables.peek (name.ofArray 1) = .array g
  items : g.items.toList = e.joined a rest
  taken : Run.updateArray name e.take p s = .ok a mid

end ListEnd

open Variables in
/-- POP and SHIFT move an item from an end of a list to a location outside of it. If they
fail and every alias is faithful, everything is read as before from every call, or the item
was taken and could not be stored, and then the list is without it. -/
theorem a_removal_moves_an_item_or_loses_it (e : ListEnd) (p : Program) (s : State) (name : Name)
    (target : Location) :
    Run.After (Run.execute (e.statement name target)) p s
      (fun flow t => flow = .next ∧
        ∀ g, s.memory.variables.peek (name.ofArray 1) = .array g → g.items ≠ #[] →
          ∃ a rest mid x, e.Takes p name s g a rest mid ∧ mid.address target = .ok x ∧
            (s.memory.variables.cell x.name false ≠ s.memory.variables.cell (name.ofArray 1) false →
              t.memory.variables.peek (name.ofArray 1) = .array { g with items := rest.toArray } ∧
              ∃ w, x.fit (s.memory.variables.peek x.name) a = .ok w ∧
                t.memory.variables.read x = .ok w))
      fun err t => s.memory.variables.Faithful → s.memory.variables.SeenAlike t.memory.variables ∨
        ∃ g a rest mid, e.Takes p name s g a rest mid ∧ Run.assign target a p mid = .error err t ∧
          t.memory.variables.peek (name.ofArray 1) = .array { g with items := rest.toArray } ∧
          ∀ depth y, ¬ s.memory.variables.Shares (.variable (name.ofArray 1)) depth y →
            (t.memory.variables.cutTo depth).read y = (s.memory.variables.cutTo depth).read y := by
  rw [ListEnd.execute_statement, Run.after_bind]
  refine (Run.after_updateArrayCell name e.take).traced.mono ?_ fun err t ht hs =>
    Or.inl (ht.2.seenAlike hs.uniform)
  rintro a mid ⟨hrun, g, g', hlist, htake, hw⟩
  obtain ⟨rest, rfl, hempty, hsplit⟩ := ListEnd.exists_of_take htake
  rw [Run.after_bind]
  refine (Run.after_assignAddress target a).traced.mono ?_ ?_
  · rintro _ t ⟨-, x, hx, hreceives⟩
    refine ⟨rfl, fun g₁ hg₁ hne => ?_⟩
    cases hlist.symm.trans hg₁
    refine ⟨a, rest, mid, x, ⟨hlist, hsplit hne, hrun⟩, hx, fun hapart => ?_⟩
    obtain ⟨w, hfit, hread⟩ := hreceives.read
    obtain ⟨u, -, hw'⟩ := hreceives
    refine ⟨?_, w, ?_, hread⟩
    · rw [hw'.peek_other (by rw [hw.cell, hw.cell]; exact hapart.symm), hw.peek_self rfl]
    · rwa [hw.peek_other hapart] at hfit
  · rintro err t ⟨hassign, other, hready⟩ hs
    have hseen := hready.seenAlike (hw.uniform hs.uniform)
    by_cases hne : g.items = #[]
    · -- Nothing is taken off a list without items: the same list is stored once more.
      have hsame : ({ g with items := rest.toArray } : Grid Value) = g := by
        rw [hempty hne, ← hne]
      rw [hsame, ← hlist] at hw
      exact Or.inl ((hw.seenAlike hs.uniform).trans hseen)
    · refine Or.inr ⟨g, a, rest, mid, ⟨hlist, hsplit hne, hrun⟩, hassign, ?_, fun depth y hy => ?_⟩
      · rw [← hw.peek_self rfl]
        exact Except.ok.inj (hseen.read_eq (.variable (name.ofArray 1)))
      · rw [hseen depth y, read_eq, read_eq, hw.peek_of_ne hy]

theorem a_pop_moves_the_last_item :
    let vars : Variables := { globals := Table.ofList [(⟨['A', '%', '[', ']']⟩,
      .array { element := .integer, items := #[.integer 1, .integer 2] })] }
    let s : State := { memory := { «variables» := vars, trail := { random := .ofSeed 7 } } }
    let target := Location.variable ⟨['n', '%']⟩
    ∃ t, Run.execute (.pop ⟨['a', '%']⟩ target) (.ofLines []) s = .ok .next t ∧
      t.memory.variables.peek ⟨['a', '%', '[', ']']⟩ =
        .array { element := .integer, items := #[.integer 1] } ∧
      t.memory.variables.peek ⟨['n', '%']⟩ = .integer 2 := by
  intro vars s target
  have h := a_removal_moves_an_item_or_loses_it .last (.ofLines []) s ⟨['a', '%']⟩ target
  unfold Run.After at h
  cases hx : Run.execute (.pop ⟨['a', '%']⟩ target) (.ofLines []) s with
  | error err t => cases hx
  | ok flow t =>
    have hrun : Run.execute (ListEnd.last.statement ⟨['a', '%']⟩ target) (.ofLines []) s =
      .ok flow t := hx
    rw [hrun] at h
    obtain ⟨rfl, h⟩ := h
    obtain ⟨a, rest, mid, x, htakes, haddress, h⟩ := h _ rfl (by decide)
    cases haddress
    cases htakes.taken
    obtain ⟨hlist, w, hfit, hread⟩ := h (by decide)
    cases hfit
    have hitems : [Value.integer 1] ++ [.integer 2] = rest ++ [.integer 2] := htakes.items
    cases List.append_cancel_right hitems
    exact ⟨t, rfl, hlist, Except.ok.inj hread⟩

/-- A POP into a variable that cannot hold the item fails, and the item is gone. -/
theorem a_pop_that_fails_loses_the_last_item :
    let vars : Variables := { globals := Table.ofList [(⟨['A', '%', '[', ']']⟩,
      .array { element := .integer, items := #[.integer 1, .integer 2] })] }
    let s : State := { memory := { «variables» := vars, trail := { random := .ofSeed 7 } } }
    let target := Location.variable ⟨['s', '$']⟩
    ∃ err t, Run.execute (.pop ⟨['a', '%']⟩ target) (.ofLines []) s = .error err t ∧
      s.reads (.element ⟨['a', '%']⟩ [.integer 1]) = .ok (.integer 2) ∧
      t.reads (.element ⟨['a', '%']⟩ [.integer 1]) = .error (Error.indexOutOfBounds 1) :=
  ⟨_, _, rfl, rfl, rfl⟩

end LineBasic
