-- Where a location is. A location leads to a cell and from there into the value of the
-- cell, to an item of an array or to a member of a structure. What is stored at one such
-- site is read back there, and a site that neither holds it nor lies in it keeps its value.
import LineBasic.Proofs.Recovery

namespace LineBasic

/-! ## Parts of a value -/

theorem exists_of_isSome_bind {α β : Type} {o : Option α} {f : α → Option β}
    (h : (o.bind f).isSome = true) : ∃ a, o = some a ∧ (f a).isSome = true := by
  cases o with
  | none => cases h
  | some a => exact ⟨a, rfl, h⟩

/-- One way into a value: to an item of an array or to a member of a structure. -/
inductive Part where
  | item (place : Nat)
  | member (key : Name)
deriving DecidableEq

namespace Value

/-- What is at the end of a path into a value. -/
def part? : List Part → Value → Option Value
  | [], v => some v
  | .item i :: rest, .array g => g.items[i]?.bind (part? rest)
  | .member k :: rest, .record m => (m.get? k).bind (part? rest)
  | _ :: _, _ => none

/-- A value with another value at the end of a path. A path that leads nowhere changes
nothing. -/
def withPart (new : Value) : List Part → Value → Value
  | [], _ => new
  | .item i :: rest, .array g =>
    match g.items[i]? with
    | some v => .array { g with items := g.items.setIfInBounds i (withPart new rest v) }
    | none => .array g
  | .member k :: rest, .record m =>
    match m.get? k with
    | some v => .record (m.insert k (withPart new rest v))
    | none => .record m
  | _ :: _, v => v

variable {new v : Value} {path other : List Part}

/-- Paths neither of which goes on from the other do not meet. -/
theorem part?_withPart_apart (h : ¬ path <+: other) (h' : ¬ other <+: path) :
    (withPart new path v).part? other = v.part? other := by
  induction path generalizing v other with
  | nil => exact absurd List.nil_prefix h
  | cons part rest ih =>
    cases other with
    | nil => exact absurd List.nil_prefix h'
    | cons part' rest' =>
      have hrest : part = part' → ¬ rest <+: rest' ∧ ¬ rest' <+: rest := by
        rintro rfl
        exact ⟨fun hp => h (List.cons_prefix_cons.2 ⟨rfl, hp⟩),
          fun hp => h' (List.cons_prefix_cons.2 ⟨rfl, hp⟩)⟩
      cases part with
      | item i =>
        cases v with
        | array g =>
          cases hw : g.items[i]? with
          | none => simp only [withPart, hw]
          | some w =>
            cases part' with
            | item j =>
              simp only [withPart, hw, part?]
              by_cases hij : i = j
              · obtain ⟨hp, hp'⟩ := hrest (congrArg _ hij)
                subst hij
                rw [Array.getElem?_setIfInBounds_self_of_lt (Array.getElem?_eq_some_iff.1 hw).1, hw]
                exact ih hp hp'
              · rw [Array.getElem?_setIfInBounds_ne hij]
            | member => simp only [withPart, hw, part?]
        | integer | real | string | complex | record => rfl
      | member k =>
        cases v with
        | record m =>
          cases hw : m.get? k with
          | none => simp only [withPart, hw]
          | some w =>
            cases part' with
            | member k' =>
              simp only [withPart, hw, part?]
              by_cases hkk : k = k'
              · obtain ⟨hp, hp'⟩ := hrest (congrArg _ hkk)
                subst hkk
                rw [Table.get?_insert_self, hw]
                exact ih hp hp'
              · rw [Table.get?_insert_ne _ hkk]
            | item => simp only [withPart, hw, part?]
        | integer | real | string | complex | array => rfl

end Value

/-! ## Sites -/

/-- A cell, and a way from there into the value of the cell. -/
structure Site where
  cell : Cell
  path : List Part
deriving DecidableEq

/-- Neither of two sites holds the other. -/
def Site.Apart (l m : Site) : Prop := l.cell = m.cell → ¬ l.path <+: m.path ∧ ¬ m.path <+: l.path

theorem Site.Apart.symm {l m : Site} (h : l.Apart m) : m.Apart l :=
  fun hc => (h hc.symm).symm

namespace Variables

variable {vars : Variables} {l m : Site} {new : Value}

/-- What is at a site. -/
def part? (vars : Variables) (l : Site) : Option Value := (vars.fetch l.cell).bind (Value.part? l.path)

/-- The variables with another value at a site. -/
def withPart (vars : Variables) (l : Site) (new : Value) : Variables :=
  vars.store (Value.withPart new l.path ((vars.fetch l.cell).getD new)) l.cell

/-- A value can be put at a site: a name leads to its cell, and the site is the whole cell
or something is there. -/
structure HasRoom (vars : Variables) (l : Site) : Prop where
  named : ∃ name, l.cell = vars.cell name false
  held : l.path = [] ∨ (vars.part? l).isSome = true

namespace HasRoom

theorem isLive (h : vars.HasRoom l) : vars.isLive l.cell = true := by
  obtain ⟨name, hname⟩ := h.named
  rw [hname]
  exact vars.isLive_cell name false

/-- Inside a cell there is room only in a value that is there. -/
theorem exists_value (h : vars.HasRoom l) (hp : l.path ≠ []) :
    ∃ v, vars.fetch l.cell = some v ∧ (v.part? l.path).isSome = true ∧
      ∀ new, vars.withPart l new = vars.store (Value.withPart new l.path v) l.cell := by
  obtain ⟨v, hv, hpart⟩ := exists_of_isSome_bind (h.held.resolve_left hp)
  refine ⟨v, hv, hpart, fun new => ?_⟩
  rw [Variables.withPart, hv, Option.getD_some]

/-- What is put at a site leaves every name with its cell. -/
theorem cell_withPart (h : vars.HasRoom l) (name : Name) :
    (vars.withPart l new).cell name false = vars.cell name false := by
  obtain ⟨n, hn⟩ := h.named
  rw [Variables.withPart, hn, cell_store]

/-- What is put at a site is not seen at a site apart from it. -/
theorem part?_withPart_apart (h : vars.HasRoom l) (ha : m.Apart l) :
    (vars.withPart l new).part? m = vars.part? m := by
  by_cases hc : m.cell = l.cell
  · obtain ⟨hml, hlm⟩ := ha hc
    have hp : l.path ≠ [] := fun hp => hlm (hp ▸ List.nil_prefix)
    obtain ⟨v, hv, -, hwith⟩ := h.exists_value hp
    rw [part?, part?, hwith, hc, fetch_store_self _ h.isLive, hv]
    exact Value.part?_withPart_apart hlm hml
  · rw [part?, part?, Variables.withPart, fetch_store_ne _ hc]

/-- What is put at a site leaves room at a site apart from it. -/
theorem withPart (h : vars.HasRoom m) (hl : vars.HasRoom l) (ha : m.Apart l) :
    (vars.withPart l new).HasRoom m := by
  obtain ⟨name, hname⟩ := h.named
  refine ⟨⟨name, hname.trans (hl.cell_withPart name).symm⟩, h.held.imp id fun hm => ?_⟩
  rwa [hl.part?_withPart_apart ha]

end HasRoom

end Variables

end LineBasic
