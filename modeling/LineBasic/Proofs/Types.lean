-- The sigil of a variable fixes the type of what it stores. A name is made to
-- fit where it is used, and an alias stores under another name, so this holds as
-- long as every reference is passed to a parameter of the variable's own type.
import LineBasic.Proofs.Names
import LineBasic.Proofs.References
import LineBasic.Proofs.Storage

namespace LineBasic

/-! ## Tables whose entries all pass a test -/

namespace Table

variable {κ α : Type} {P : κ → α → Prop} {t : Table κ α}

def All (P : κ → α → Prop) (t : Table κ α) : Prop := ∀ e ∈ t.entries, P e.1 e.2

theorem all_empty : All P {} := by simp [All]

theorem All.get? [DecidableEq κ] (h : t.All P) {key : κ} {a : α} (hg : t.get? key = some a) :
    P key a := by
  obtain ⟨entries⟩ := t
  unfold Table.get? at hg
  unfold All at h
  dsimp only at h hg
  induction entries with
  | nil => cases hg
  | cons e rest ih =>
    obtain ⟨k, b⟩ := e
    obtain ⟨hhead, hrest⟩ := List.forall_mem_cons.1 h
    rw [find] at hg
    split at hg
    · rename_i hk
      cases hg
      exact hk ▸ hhead
    · exact ih hrest hg

theorem mem_place [DecidableEq κ] [LT κ] [DecidableLT κ] {key : κ} {a : α} {e : κ × α}
    {l : List (κ × α)} (h : e ∈ place key a l) : e = (key, a) ∨ e ∈ l := by
  induction l with
  | nil => exact Or.inl (List.mem_singleton.1 h)
  | cons head rest ih =>
    obtain ⟨k, b⟩ := head
    rw [place] at h
    split at h
    · exact (List.mem_cons.1 h).imp_right (List.mem_cons_of_mem _)
    · split at h
      · exact List.mem_cons.1 h
      · rcases List.mem_cons.1 h with rfl | h
        · exact Or.inr List.mem_cons_self
        · exact (ih h).imp_right (List.mem_cons_of_mem _)

theorem All.insert [DecidableEq κ] [LT κ] [DecidableLT κ] (h : t.All P) {key : κ} {a : α}
    (ha : P key a) : (t.insert key a).All P := by
  intro e he
  rcases mem_place he with rfl | he
  · exact ha
  · exact h e he

theorem all_ofList [DecidableEq κ] [LT κ] [DecidableLT κ] {pairs : List (κ × α)}
    (h : ∀ e ∈ pairs, P e.1 e.2) : (ofList pairs).All P := by
  have hfold : ∀ t : Table κ α, t.All P →
      (pairs.foldl (fun t p => t.insert p.1 p.2) t).All P := by
    induction pairs with
    | nil => exact fun t ht => ht
    | cons e rest ih =>
      obtain ⟨hhead, hrest⟩ := List.forall_mem_cons.1 h
      exact fun t ht => ih hrest _ (ht.insert hhead)
  exact hfold {} all_empty

end Table

/-! ## The type that a name asks for -/

/-- Names that ask for one type: both of an array or both of a scalar, with one
sigil. -/
def Name.sameType (a b : Name) : Bool :=
  a.isArray = b.isArray && Kind.ofName a = Kind.ofName b

/-- A value of the type that a name asks for. -/
def Value.suits (name : Name) : Value → Bool
  | .array a => name.isArray && a.element = Kind.ofName name
  | v => !name.isArray && v.kind = Kind.ofName name

namespace Name

variable {a b c : Name}

theorem sameType_iff :
    a.sameType b = true ↔ a.isArray = b.isArray ∧ Kind.ofName a = Kind.ofName b := by
  simp [sameType]

theorem sameType_trans (hab : a.sameType b = true) (hbc : b.sameType c = true) :
    a.sameType c = true := by
  rw [sameType_iff] at *
  exact ⟨hab.1.trans hbc.1, hab.2.trans hbc.2⟩

theorem sameType_key (a : Name) : a.key.sameType a = true :=
  sameType_iff.2 ⟨a.isArray_key, a.ofName_key⟩

end Name

namespace Value

variable {a b name : Name} {v w : Value}

/-- What fits a name fits every name of its type. -/
theorem suits_congr (h : a.sameType b = true) : v.suits a = v.suits b := by
  obtain ⟨harray, hkind⟩ := Name.sameType_iff.1 h
  cases v <;> simp [suits, harray, hkind]

/-- No sigil asks for an array. -/
theorem ofName_ne_array (name : Name) : Kind.ofName name ≠ .array := by
  unfold Kind.ofName
  cases name.sigil <;> simp [Kind.ofSigil]

theorem suits_scalar (hs : name.isArray = false) (hk : v.kind = Kind.ofName name) :
    v.suits name = true := by
  cases v with
  | array a => exact absurd hk.symm (ofName_ne_array name)
  | _ => simp [suits, hs, hk]

theorem kind_zero (k : Kind) : (zero k).kind = k := by cases k <;> rfl

theorem suits_defaultFor (name : Name) : (defaultFor name).suits name = true := by
  unfold defaultFor
  split
  · rename_i h
    simp [suits, h]
  · rename_i h
    exact suits_scalar (by simpa using h) (kind_zero _)

theorem suits_of_fitTo (h : fitTo name v = .ok w) : w.suits name = true := by
  unfold fitTo at h
  split at h
  · rename_i harray
    split at h
    · rename_i a
      obtain ⟨b, hb, h⟩ := exists_of_bind_eq_ok h
      cases h
      have helement : b.element = Kind.ofName name := by
        unfold Grid.retype at hb
        split at hb
        · rename_i hk
          cases hb
          exact hk
        · obtain ⟨items, _, hb⟩ := exists_of_bind_eq_ok hb
          cases hb
          rfl
      simp [suits, harray, helement]
    · cases h
  · rename_i hscalar
    exact suits_scalar (by simpa using hscalar) (kind_of_coerce h)

/-- An array that changes in its cell keeps the type of its items, and a
structure stays one. -/
theorem Evolves.suits (h : v.Evolves w) : w.suits name = v.suits name := by
  cases h with
  | array helement => simp [Value.suits, helement]
  | record old new => rfl

end Value

/-! ## Typed variables -/

/-- The key of a cell. -/
def Cell.key : Cell → Name
  | .global key => key
  | .local _ key => key

namespace Variables

/-- Every value suits the key that it is stored under, and every alias is of the
type of its target. -/
structure Typed (vars : Variables) : Prop where
  globals : vars.globals.All fun key v => v.suits key = true
  locals : ∀ scope ∈ vars.scopes.items, scope.locals.All fun key v => v.suits key = true
  aliases : ∀ scope ∈ vars.scopes.items,
    scope.aliases.All fun key target => key.sameType target = true

variable {vars vars' : Variables} {v w : Value}

theorem typed_empty : ({} : Variables).Typed :=
  ⟨Table.all_empty, fun _ hmem => (List.not_mem_nil hmem).elim,
    fun _ hmem => (List.not_mem_nil hmem).elim⟩

/-- Wherever aliases lead, what they have in common with their targets stays. -/
theorem locate_keeps {β : Type} (f : Name → β) (hkey : ∀ name, f name.key = f name)
    {scopes : List Scope}
    (h : ∀ scope ∈ scopes, ∀ key target, scope.aliases.get? key = some target → f key = f target)
    (depth : Nat) (key : Name) (here : Bool) : f (locate scopes depth key here).key = f key := by
  induction depth generalizing key here with
  | zero => rfl
  | succ level ih =>
    rw [locate]
    split
    · rfl
    · rename_i scope hscope
      split
      · rename_i target htarget
        rw [ih, hkey]
        exact (h scope (List.mem_of_getElem? hscope) key target htarget).symm
      · split <;> rfl

/-- Wherever aliases lead, the type of the name stays. -/
theorem sameType_locate {scopes : List Scope}
    (h : ∀ scope ∈ scopes, scope.aliases.All fun key target => key.sameType target = true)
    (depth : Nat) (key : Name) (here : Bool) :
    (locate scopes depth key here).key.sameType key = true := by
  have hkept := locate_keeps (fun name => (name.isArray, Kind.ofName name)) (fun name => by simp)
    (fun scope hmem key target hget => by
      obtain ⟨harray, hkind⟩ := Name.sameType_iff.1 ((h scope hmem).get? hget)
      rw [harray, hkind]) depth key here
  exact Name.sameType_iff.2 (Prod.mk.inj hkept)

theorem Typed.suits_cell (h : vars.Typed) (name : Name) (here : Bool) :
    v.suits (vars.cell name here).key = v.suits name :=
  Value.suits_congr (Name.sameType_trans (sameType_locate h.aliases _ _ _) name.sameType_key)

theorem Typed.suits_fetch (h : vars.Typed) {c : Cell} (hf : vars.fetch c = some v) :
    v.suits c.key = true := by
  cases c with
  | global key => exact h.globals.get? hf
  | «local» level key =>
    obtain ⟨scope, hscope, hv⟩ := Option.bind_eq_some_iff.1 hf
    exact (h.locals scope (List.mem_of_getElem? hscope)).get? hv

/-- A scope after a store is one of before, or one of before with one more local. -/
theorem mem_scopes_store {level : Nat} {key : Name} {scope : Scope}
    (hmem : scope ∈ (vars.store v (.local level key)).scopes.items) :
    ∃ old ∈ vars.scopes.items, scope = old ∨
      scope = { old with locals := old.locals.insert key v } := by
  obtain ⟨i, hi⟩ := List.mem_iff_getElem?.1 hmem
  simp only [Variables.store, Stack.modify_items, List.getElem?_modify, Option.map_eq_map,
    Option.map_eq_some_iff] at hi
  obtain ⟨old, hold, rfl⟩ := hi
  refine ⟨old, List.mem_of_getElem? hold, ?_⟩
  by_cases hlevel : level = i <;> simp [hlevel]

/-- A store leaves all aliases. -/
theorem forall_aliases_store {G : Table Name Name → Prop}
    (h : ∀ scope ∈ vars.scopes.items, G scope.aliases) (v : Value) (c : Cell) :
    ∀ scope ∈ (vars.store v c).scopes.items, G scope.aliases := by
  cases c with
  | global key => exact h
  | «local» level key =>
    intro scope hmem
    obtain ⟨old, hold, rfl | rfl⟩ := mem_scopes_store hmem
    · exact h _ hold
    · exact h old hold

theorem Typed.store (h : vars.Typed) {c : Cell} (hv : v.suits c.key = true) :
    (vars.store v c).Typed := by
  cases c with
  | global key => exact ⟨h.globals.insert hv, h.locals, h.aliases⟩
  | «local» level key =>
    refine ⟨h.globals, fun scope hmem => ?_, forall_aliases_store h.aliases v _⟩
    obtain ⟨old, hold, rfl | rfl⟩ := mem_scopes_store hmem
    · exact h.locals _ hold
    · exact (h.locals _ hold).insert hv

theorem Typed.put (h : vars.Typed) {name : Name} (hv : v.suits name = true) (here : Bool) :
    (vars.put name v here).Typed :=
  h.store ((h.suits_cell name here).trans hv)

/-- The cell of a name with its value; the value suits the cell. -/
theorem Typed.slot (h : vars.Typed) (name : Name) :
    (vars.slot name).2.2.Typed ∧ (vars.slot name).2.1.suits (vars.slot name).1.key = true := by
  have hdefault : (Value.defaultFor name).suits (vars.cell name false).key = true :=
    (h.suits_cell name false).trans (Value.suits_defaultFor name)
  unfold Variables.slot
  dsimp only
  split
  · rename_i v hv
    exact ⟨h, h.suits_fetch hv⟩
  · exact ⟨h.store hdefault, hdefault⟩

/-- What all aliases pass still holds of them once a call has made its own. -/
theorem forall_aliases_enterCall {G : Table Name Name → Prop} {returnLine : Option Nat}
    {aliases : List (Name × Name)} (hnew : G (aliasTable aliases))
    (h : ∀ scope ∈ vars.scopes.items, G scope.aliases)
    (he : vars.enterCall returnLine aliases = .ok vars') :
    ∀ scope ∈ vars'.scopes.items, G scope.aliases := by
  intro scope hmem
  rw [(enterCall_eq_ok he).1] at hmem
  rcases List.mem_append.1 hmem with hmem | hmem
  · exact h scope hmem
  · cases List.mem_singleton.1 hmem
    exact hnew

theorem Typed.enterCall (h : vars.Typed) {returnLine : Option Nat} {aliases : List (Name × Name)}
    (ha : ∀ a ∈ aliases, a.1.sameType a.2 = true)
    (he : vars.enterCall returnLine aliases = .ok vars') : vars'.Typed := by
  obtain ⟨hitems, hglobals⟩ := enterCall_eq_ok he
  have hnew : (aliasTable aliases).All fun key target => key.sameType target = true := by
    refine Table.all_ofList fun e he => ?_
    obtain ⟨a, hmem, rfl⟩ := List.mem_map.1 he
    exact Name.sameType_trans a.1.sameType_key (ha a hmem)
  refine ⟨hglobals ▸ h.globals, fun scope hmem => ?_, forall_aliases_enterCall hnew h.aliases he⟩
  rw [hitems] at hmem
  rcases List.mem_append.1 hmem with hmem | hmem
  · exact h.locals scope hmem
  · cases List.mem_singleton.1 hmem
    exact Table.all_empty

theorem Typed.cutTo (h : vars.Typed) (depth : Nat) : (vars.cutTo depth).Typed :=
  ⟨h.globals, fun scope hmem => h.locals scope (List.mem_of_mem_take hmem),
    fun scope hmem => h.aliases scope (List.mem_of_mem_take hmem)⟩

/-- Nothing that a program does to its variables breaks their types, if the
references that it passes are of the types of their parameters. -/
theorem Typed.alters {aliases : List (Name × Name)} (ha : ∀ a ∈ aliases, a.1.sameType a.2 = true)
    (h : vars.Typed) (hx : Alters aliases vars vars') : vars'.Typed := by
  induction hx with
  | none vars => exact h
  | put vars here hfit => exact h.put (Value.suits_of_fitTo hfit) here
  | slot vars name => exact (h.slot name).1
  | change vars name hevolves =>
    obtain ⟨hslot, hsuits⟩ := h.slot name
    exact hslot.store (hevolves.suits.trans hsuits)
  | call he => exact h.enterCall ha he
  | cut vars depth => exact h.cutTo depth
  | trans _ _ ihab ihbc => exact ihbc (ihab h)

/-- What all aliases pass still holds of them whatever a program does to its variables, if the
aliases that it makes pass it. -/
theorem Alters.forall_aliases {G : Table Name Name → Prop} {aliases : List (Name × Name)}
    (hx : Alters aliases vars vars') (hnew : G (aliasTable aliases))
    (h : ∀ scope ∈ vars.scopes.items, G scope.aliases) :
    ∀ scope ∈ vars'.scopes.items, G scope.aliases := by
  have hslot : ∀ (vars : Variables) (name : Name),
      (∀ scope ∈ vars.scopes.items, G scope.aliases) →
      ∀ scope ∈ (vars.slot name).2.2.scopes.items, G scope.aliases := by
    intro vars name h
    unfold Variables.slot
    dsimp only
    split
    · exact h
    · exact forall_aliases_store h _ _
  induction hx with
  | none vars => exact h
  | put vars here hfit => exact forall_aliases_store h _ _
  | slot vars name => exact hslot vars name h
  | change vars name hevolves => exact forall_aliases_store (hslot vars name h) _ _
  | call he => exact forall_aliases_enterCall hnew h he
  | cut vars depth => exact fun scope hmem => h scope (List.mem_of_mem_take hmem)
  | trans _ _ ihab ihbc => exact ihbc (ihab h)

end Variables

/-! ## Runs -/

/-- What all aliases pass that a program can make holds of those of each statement. -/
theorem Program.forall_lends {p : Program} {good : Name × Name → Bool}
    (h : (p.lines.all fun l => (p.lends l.statement).all good) = true) {line : Nat} {st : Statement}
    (hst : p.statement? line = some st) : ∀ a ∈ p.lends st, good a = true := by
  obtain ⟨l, hl, rfl⟩ := Option.map_eq_some_iff.1 hst
  rw [List.all_eq_true] at h
  exact List.all_eq_true.1 (h l (List.mem_of_getElem? hl))

/-- Every CALL of a program that passes a plain variable by reference passes it
to a parameter of the variable's type. -/
def Program.lendsAlike (p : Program) : Bool :=
  p.lines.all fun l => (p.lends l.statement).all fun a => a.1.sameType a.2

namespace Session

theorem typed_step {s : Session} (hp : s.program.lendsAlike = true)
    (h : s.memory.variables.Typed) : s.step.2.memory.variables.Typed := by
  rcases s.alters_step with heq | ⟨st, hst, hx⟩
  · rw [heq]
    exact h
  · exact h.alters (Program.forall_lends hp hst) hx

/-- In a program that passes references to parameters of their types, every value
has the type that its key asks for, in the globals and in every call. -/
theorem every_value_suits_its_name {p : Program} {s : Session} (hp : p.lendsAlike = true)
    (h : Reachable p s) :
    (∀ e ∈ s.memory.variables.globals.entries, e.2.suits e.1 = true) ∧
      ∀ scope ∈ s.memory.variables.scopes.items, ∀ e ∈ scope.locals.entries,
        e.2.suits e.1 = true := by
  have hall : s.program = p ∧ s.memory.variables.Typed := by
    refine h.induct (P := fun s => s.program = p ∧ s.memory.variables.Typed)
      (fun _ _ => ⟨rfl, Variables.typed_empty⟩) ?_ (fun _ hs => ⟨hs.1, Variables.typed_empty⟩)
      (fun _ hs => hs) fun _ _ _ _ hs => hs
    rintro s ⟨rfl, hs⟩
    exact ⟨s.program_step, typed_step hp hs⟩
  exact ⟨hall.2.globals, hall.2.locals⟩

theorem a_reference_of_its_type_is_kept :
    let x : Name := .ofString "x%"
    let n : Name := .ofString "N%"
    let p := Program.ofStatements [.assign (.variable x) (.integer 1),
      .call (.ofString "F") [.variable x], .stop,
      .sub (.ofString "f") [⟨n, true⟩], .assign (.variable n) (.integer 5), .endSub]
    let s := (Session.start p 7 {}).step.2.step.2.step.2
    p.lendsAlike = true ∧ s.memory.variables.globals.keys = [x.key] ∧
      ∀ e ∈ s.memory.variables.globals.entries, e.2.suits e.1 = true :=
  ⟨by decide +kernel, by decide +kernel,
    (every_value_suits_its_name (by decide +kernel) (.step (.step (.step (.start 7 {}))))).1⟩

/-- A REAL parameter that is bound to an INTEGER variable stores a REAL there. -/
theorem a_reference_of_another_type_stores_its_own :
    let x : Name := .ofString "x%"
    let n : Name := .ofString "n#"
    let p := Program.ofStatements [.assign (.variable x) (.integer 1),
      .call (.ofString "F") [.variable x], .stop,
      .sub (.ofString "F") [⟨n, true⟩], .assign (.variable n) (.integer 5), .endSub]
    let s := (Session.start p 7 {}).step.2.step.2.step.2
    Reachable p s ∧ ∃ e ∈ s.memory.variables.globals.entries,
      e.1 = x.key ∧ e.2.kind = .real ∧ Kind.ofName e.1 = .integer ∧ e.2.suits e.1 = false := by
  refine ⟨.step (.step (.step (.start 7 {}))), ?_⟩
  exact ⟨(.ofString "X%", .real (Real.ofInteger 5)), List.mem_singleton_self _, by decide, rfl,
    by decide, by decide⟩

end Session

end LineBasic
