-- Parameters passed by reference. While a call lasts, its alias of a caller's
-- variable leads to one cell, whatever is read, stored and called meanwhile.
-- Names are resolved anew at each use, so this rests on the callers' scopes: no
-- use from above gives them a new variable or takes one away.
import LineBasic.Proofs.Recovery
import Mathlib.Data.List.Nodup

namespace LineBasic

/-! ## What a program does with its memory -/

/-- One use of the memory. -/
inductive Use where
  | get (name : Name)
  | peek (name : Name)
  | element (name : Name) (indexes : List Int64)
  | set (name : Name) (v : Value) (here : Bool)
  /-- Asks for the cell of a name and changes what it holds. -/
  | slot (name : Name) (change : Value → Value)
  | enterCall (returnLine : Option Nat) (aliases : List (Name × Name))
  | leaveCall

namespace Memory

def depth (m : Memory) : Nat := m.variables.depth

def enterCall (m : Memory) (returnLine : Option Nat) (aliases : List (Name × Name)) :
    Except Error Memory := do
  return { m with «variables» := ← m.variables.enterCall returnLine aliases }

def leaveCall (m : Memory) : Memory := { m with «variables» := m.variables.leaveCall.2 }

/-- The memory after a use. A use that fails leaves it as it was. -/
def use (m : Memory) : Use → Memory
  | .get name => (m.get name).2
  | .peek _ => m
  | .element name indexes => (m.element name indexes).2
  | .set name v here => (m.set name v here).toOption.getD m
  | .slot name change =>
    let (cell, v, m) := m.slot name
    m.store cell (change v)
  | .enterCall returnLine aliases => (m.enterCall returnLine aliases).toOption.getD m
  | .leaveCall => m.leaveCall

def useAll (m : Memory) (uses : List Use) : Memory := uses.foldl use m

end Memory

/-! ## What a name denotes -/

/-- The last of some aliases for a parameter is one of `target`. -/
def Binds (aliases : List (Name × Name)) (parameter target : Name) : Prop :=
  ∃ before spelled after, aliases = before ++ (spelled, target) :: after ∧
    spelled.alike parameter = true ∧ ∀ a ∈ after, a.1.alike parameter = false

/-- The cell that a key denotes, seen from the innermost of the lowest `depth`
scopes: an alias denotes what its target denotes one scope below, and any other
key a local variable of that scope, or else a global one. -/
inductive Denotes (scopes : List Scope) : (depth : Nat) → (key : Name) → Cell → Prop where
  | alias {level : Nat} {key target : Name} {scope : Scope} {c : Cell}
      (hs : scopes[level]? = some scope) (ha : scope.aliases.get? key = some target)
      (hc : Denotes scopes level target.key c) : Denotes scopes (level + 1) key c
  | local {level : Nat} {key : Name} {scope : Scope} (hs : scopes[level]? = some scope)
      (ha : scope.aliases.get? key = none) (hl : (scope.locals.get? key).isSome = true) :
      Denotes scopes (level + 1) key (.local level key)
  | global {level : Nat} {key : Name} {scope : Scope} (hs : scopes[level]? = some scope)
      (ha : scope.aliases.get? key = none) (hl : scope.locals.get? key = none) :
      Denotes scopes (level + 1) key (.global key)
  | outside {key : Name} : Denotes scopes 0 key (.global key)

namespace Variables

/-- The cell of a name, seen from the call at a depth. -/
def cellFrom (vars : Variables) (depth : Nat) (name : Name) (here : Bool) : Cell :=
  locate vars.scopes.items depth name.key here

theorem denotes_locate {scopes : List Scope} {depth : Nat} (hd : depth ≤ scopes.length) (key : Name) :
    Denotes scopes depth key (locate scopes depth key false) := by
  induction depth generalizing key with
  | zero => exact .outside
  | succ level ih =>
    have hs : scopes[level]? = some scopes[level] := List.getElem?_eq_getElem hd
    rw [locate, hs]
    dsimp only
    cases ha : scopes[level].aliases.get? key with
    | some target => exact .alias hs ha (ih (Nat.le_of_lt hd) target.key)
    | none =>
      cases hl : scopes[level].locals.get? key with
      | some v => simpa [Table.contains, hl] using Denotes.local hs ha (by simp [hl])
      | none => simpa [Table.contains, hl] using Denotes.global hs ha hl

end Variables

/-- Of several pairs with the same key the last one counts. -/
theorem Table.get?_foldl_insert {κ α : Type} [DecidableEq κ] [LT κ] [DecidableLT κ] {key : κ} {a : α}
    (pairs : List (κ × α)) (t : Table κ α) :
    (pairs.foldl (fun t p => t.insert p.1 p.2) t).get? key = some a ↔
      (∃ before after, pairs = before ++ (key, a) :: after ∧ ∀ p ∈ after, p.1 ≠ key) ∨
        (∀ p ∈ pairs, p.1 ≠ key) ∧ t.get? key = some a := by
  induction pairs generalizing t with
  | nil => simp
  | cons p rest ih =>
    rw [List.foldl_cons, ih]
    constructor
    · rintro (⟨before, after, rfl, hafter⟩ | ⟨hrest, ht⟩)
      · exact Or.inl ⟨p :: before, after, rfl, hafter⟩
      · by_cases hp : p.1 = key
        · subst hp
          rw [Table.get?_insert_self] at ht
          cases ht
          exact Or.inl ⟨[], rest, rfl, hrest⟩
        · rw [Table.get?_insert_ne _ hp] at ht
          exact Or.inr ⟨List.forall_mem_cons.2 ⟨hp, hrest⟩, ht⟩
    · rintro (⟨before, after, hsplit, hafter⟩ | ⟨hall, ht⟩)
      · cases before with
        | nil =>
          cases hsplit
          exact Or.inr ⟨hafter, Table.get?_insert_self _ _ _⟩
        | cons q before =>
          cases hsplit
          exact Or.inl ⟨before, after, rfl, hafter⟩
      · obtain ⟨hp, hrest⟩ := List.forall_mem_cons.1 hall
        exact Or.inr ⟨hrest, by rwa [Table.get?_insert_ne _ hp]⟩

/-- The aliases of the scope that a call opens. -/
def aliasTable (aliases : List (Name × Name)) : Table Name Name :=
  Table.ofList (aliases.map fun a => (a.1.key, a.2))

/-- The order of the aliases is of no account if no two of the names are alike. -/
theorem aliasTable_perm {aliases aliases' : List (Name × Name)} (h : aliases'.Perm aliases)
    (hkeys : (aliases.map (·.1.key)).Nodup) : aliasTable aliases' = aliasTable aliases := by
  have hpairs := (h.map fun a => (a.1.key, a.2)).symm
  unfold aliasTable Table.ofList
  refine (hpairs.foldl_eq' (fun p hp q hq t => ?_) _).symm
  obtain ⟨a, ha, rfl⟩ := List.mem_map.1 hp
  obtain ⟨b, hb, rfl⟩ := List.mem_map.1 hq
  by_cases hab : a.1.key = b.1.key
  · rw [List.inj_on_of_nodup_map hkeys ha hb hab]
  · exact t.insert_comm hab a.2 b.2

theorem get?_aliasTable {aliases : List (Name × Name)} {key target : Name} :
    (aliasTable aliases).get? key = some target ↔
      ∃ before spelled after, aliases = before ++ (spelled, target) :: after ∧
        spelled.key = key ∧ ∀ a ∈ after, a.1.key ≠ key := by
  unfold aliasTable Table.ofList
  rw [Table.get?_foldl_insert]
  simp only [Table.get?_empty, reduceCtorEq, and_false, or_false, List.map_eq_append_iff,
    List.map_eq_cons_iff]
  constructor
  · rintro ⟨_, _, ⟨before, _, rfl, rfl, a, after, rfl, ha, rfl⟩, hafter⟩
    obtain ⟨hkey, rfl⟩ := Prod.mk.inj ha
    exact ⟨before, a.1, after, rfl, hkey, fun b hb => hafter _ (List.mem_map_of_mem hb)⟩
  · rintro ⟨before, spelled, after, rfl, rfl, hafter⟩
    refine ⟨_, _, ⟨before, _, rfl, rfl, (spelled, target), after, rfl, rfl, rfl⟩, ?_⟩
    intro b hb
    obtain ⟨c, hc, rfl⟩ := List.mem_map.1 hb
    exact hafter c hc

theorem get?_key_aliasTable {aliases : List (Name × Name)} {parameter target : Name} :
    (aliasTable aliases).get? parameter.key = some target ↔ Binds aliases parameter target := by
  simp [get?_aliasTable, Binds, Name.alike]

theorem exists_binds {aliases : List (Name × Name)} {key target : Name}
    (h : (aliasTable aliases).get? key = some target) : ∃ parameter, Binds aliases parameter target := by
  obtain ⟨_, spelled, _, _, rfl, _⟩ := get?_aliasTable.1 h
  exact ⟨spelled, get?_key_aliasTable.1 h⟩

/-! ## The callers' scopes while a call lasts -/

/-- The same aliases, the same line to return to, and variables of the same names. -/
structure Scope.SameNames (s t : Scope) : Prop where
  aliases : t.aliases = s.aliases
  returnLine : t.returnLine = s.returnLine
  keys : ∀ key, (t.locals.get? key).isSome = (s.locals.get? key).isSome

namespace Scope.SameNames

theorem refl (s : Scope) : s.SameNames s := ⟨rfl, rfl, fun _ => rfl⟩

/-- A new value for a variable that is there makes no name and loses none. -/
theorem store {s t : Scope} (h : s.SameNames t) {k : Name} (hk : (s.locals.get? k).isSome = true)
    (v : Value) : s.SameNames { t with locals := t.locals.insert k v } := by
  refine ⟨h.aliases, h.returnLine, ?_⟩
  intro key
  by_cases he : k = key
  · subst he
    simp [hk]
  · rw [Table.get?_insert_ne _ he]
    exact h.keys key

end Scope.SameNames

namespace Variables

/-- The cells that the callers lend to a call: those its aliases lead to when it begins. -/
def Lends (base : Variables) (aliases : Table Name Name) (c : Cell) : Prop :=
  ∃ key target, aliases.get? key = some target ∧ base.cell target false = c

/-- `now` has a call with these aliases on top of the calls of `base`, and more
calls perhaps. The callers have the variables they had, and only a variable that
is lent to the call can have another value. -/
structure Carries (base : Variables) (aliases : Table Name Name) (now : Variables) : Prop where
  callers : ∀ level, level < base.depth → ∃ s t, base.scopes.items[level]? = some s ∧
    now.scopes.items[level]? = some t ∧ s.SameNames t
  callee : ∃ t, now.scopes.items[base.depth]? = some t ∧ t.aliases = aliases
  kept : ∀ level key, level < base.depth → ¬ base.Lends aliases (.local level key) →
    now.fetch (.local level key) = base.fetch (.local level key)

/-- What a name denotes depends on the names in the scopes and on no value. -/
theorem locate_congr {scopes scopes' : List Scope} {depth : Nat}
    (h : ∀ level, level < depth → ∃ s t, scopes[level]? = some s ∧ scopes'[level]? = some t ∧
      s.SameNames t) (key : Name) (here : Bool) :
    locate scopes' depth key here = locate scopes depth key here := by
  induction depth generalizing key here with
  | zero => rfl
  | succ level ih =>
    obtain ⟨s, t, hs, ht, hsame⟩ := h level (Nat.lt_succ_self level)
    have hrest := ih fun l hl => h l (Nat.lt_succ_of_lt hl)
    simp only [locate, hs, ht, hsame.aliases, Table.contains, hsame.keys, hrest]
    rfl

namespace Carries

variable {base now : Variables} {aliases : Table Name Name}

theorem lt_depth (h : base.Carries aliases now) : base.depth < now.depth := by
  obtain ⟨t, ht, _⟩ := h.callee
  exact (List.getElem?_eq_some_iff.1 ht).1

/-- Seen from the callers, a name denotes what it denoted before the call. -/
theorem locate_callers (h : base.Carries aliases now) (key : Name) (here : Bool) :
    locate now.scopes.items base.depth key here = locate base.scopes.items base.depth key here :=
  locate_congr h.callers key here

/-- From the call and from those above it, a variable of a caller is reached
through an alias of the call only. -/
theorem lends_of_locate (h : base.Carries aliases now) {depth level : Nat} {key k : Name}
    {here : Bool} (hd : base.depth < depth) (hl : level < base.depth)
    (hc : locate now.scopes.items depth key here = .local level k) :
    base.Lends aliases (.local level k) := by
  induction depth generalizing key here with
  | zero => omega
  | succ n ih =>
    rw [locate] at hc
    split at hc
    · cases hc
    · rename_i scope hscope
      split at hc
      · rename_i target htarget
        by_cases hn : n = base.depth
        · -- The alias is one of the call itself.
          subst hn
          obtain ⟨t, ht, rfl⟩ := h.callee
          obtain rfl : scope = t := Option.some.inj (hscope.symm.trans ht)
          refine ⟨key, target, htarget, ?_⟩
          rw [h.locate_callers] at hc
          exact hc
        · exact ih (by omega) hc
      · split at hc
        · cases hc
          omega
        · cases hc

theorem store (h : base.Carries aliases now) {c : Cell}
    (hc : ∀ level k, c = .local level k → level < base.depth → base.Lends aliases c) (v : Value) :
    base.Carries aliases (now.store v c) := by
  cases c with
  | global key => exact ⟨h.callers, h.callee, h.kept⟩
  | «local» level k =>
    have hget : ∀ i, (now.store v (.local level k)).scopes.items[i]? =
        (fun s : Scope => if level = i then { s with locals := s.locals.insert k v } else s) <$>
          now.scopes.items[i]? := by
      intro i
      simp only [Variables.store, Stack.modify, List.getElem?_modify]
    refine ⟨?_, ?_, ?_⟩
    · intro l hl
      obtain ⟨s, t, hs, ht, hsame⟩ := h.callers l hl
      refine ⟨s, _, hs, (hget l).trans (by rw [ht]; rfl), ?_⟩
      split
      · rename_i he
        subst he
        -- What is lent is there, so the store makes no new variable.
        obtain ⟨key, target, _, hcell⟩ := hc level k rfl hl
        obtain ⟨s', hs', hin⟩ := contains_of_locate hcell
        obtain rfl : s' = s := Option.some.inj (hs'.symm.trans hs)
        exact hsame.store hin v
      · exact hsame
    · obtain ⟨t, ht, ha⟩ := h.callee
      refine ⟨_, (hget base.depth).trans (by rw [ht]; rfl), ?_⟩
      split <;> exact ha
    · intro l key hl hn
      have hne : Cell.local l key ≠ .local level k := by
        rintro he
        cases he
        exact hn (hc _ _ rfl hl)
      rw [fetch_store_ne _ hne, h.kept l key hl hn]

/-- A store through a name that is resolved now. -/
theorem store_cell (h : base.Carries aliases now) (name : Name) (here : Bool) (v : Value) :
    base.Carries aliases (now.store v (now.cell name here)) :=
  h.store (fun _ _ hc hl => hc ▸ h.lends_of_locate h.lt_depth hl hc) v

theorem slot (h : base.Carries aliases now) (name : Name) (w : Value) :
    base.Carries aliases ((now.slot name).2.2.store w (now.slot name).1) := by
  obtain ⟨hcell, hvars⟩ := slot_cell now name
  rw [hcell]
  have hlends : ∀ level k, now.cell name false = .local level k → level < base.depth →
      base.Lends aliases (now.cell name false) :=
    fun _ _ hc hl => hc ▸ h.lends_of_locate h.lt_depth hl hc
  rcases hvars with hv | ⟨v, hv⟩
  · rw [hv]
    exact h.store hlends w
  · rw [hv]
    exact (h.store hlends v).store hlends w

/-- Scopes that come and go above the call. -/
theorem congr {now' : Variables} (h : base.Carries aliases now)
    (hs : ∀ i, i ≤ base.depth → now'.scopes.items[i]? = now.scopes.items[i]?) :
    base.Carries aliases now' := by
  refine ⟨?_, ?_, ?_⟩
  · intro level hl
    rw [hs level (Nat.le_of_lt hl)]
    exact h.callers level hl
  · rw [hs _ (Nat.le_refl _)]
    exact h.callee
  · intro level key hl hn
    rw [← h.kept level key hl hn]
    simp only [fetch, Stack.get?, hs level (Nat.le_of_lt hl)]

end Carries

theorem enterCall_eq_ok {vars vars' : Variables} {returnLine : Option Nat}
    {aliases : List (Name × Name)} (h : vars.enterCall returnLine aliases = .ok vars') :
    vars'.scopes.items = vars.scopes.items ++
        [{ aliases := aliasTable aliases, returnLine }] ∧
      vars'.globals = vars.globals := by
  change (do return { vars with
    scopes := ← vars.scopes.push { aliases := aliasTable aliases, returnLine } }) = _ at h
  cases hp : vars.scopes.push { aliases := aliasTable aliases, returnLine } with
  | error e => rw [hp] at h; cases h
  | ok scopes =>
    rw [hp] at h
    cases h
    obtain ⟨_, rfl⟩ := Stack.push_eq_ok _ hp
    exact ⟨rfl, rfl⟩

/-- A call that begins. -/
theorem carries_enterCall {vars vars' : Variables} {returnLine : Option Nat}
    {aliases : List (Name × Name)} (h : vars.enterCall returnLine aliases = .ok vars') :
    vars.Carries (aliasTable aliases) vars' := by
  obtain ⟨hitems, _⟩ := enterCall_eq_ok h
  have hlow : ∀ level, level < vars.depth → vars'.scopes.items[level]? = vars.scopes.items[level]? := by
    intro level hl
    rw [hitems, List.getElem?_append_left hl]
  refine ⟨?_, ?_, ?_⟩
  · intro level hl
    have hs : vars.scopes.items[level]? = some _ := List.getElem?_eq_getElem hl
    exact ⟨_, _, hs, (hlow level hl).trans hs, .refl _⟩
  · exact ⟨_, by rw [hitems]; exact List.getElem?_concat_length, rfl⟩
  · intro level key hl _
    simp only [fetch, Stack.get?, hlow level hl]

end Variables

namespace Memory

open Variables

variable {base : Variables} {aliases : Table Name Name}

/-- No use of the memory takes from the callers what it found, as long as the
call is not left. -/
theorem carries_use {m : Memory} (h : base.Carries aliases m.variables) (u : Use)
    (hd : base.depth < (m.use u).depth) : base.Carries aliases (m.use u).variables := by
  cases u with
  | get name => exact h
  | peek name => exact h
  | element name indexes => exact h
  | set name v here =>
    simp only [use, Memory.set]
    cases fitTo name v with
    | error e => exact h
    | ok w => exact h.store_cell name here w
  | slot name change => exact h.slot name _
  | enterCall returnLine other =>
    simp only [use, Memory.enterCall]
    cases hc : m.variables.enterCall returnLine other with
    | error e => exact h
    | ok vars =>
      refine h.congr fun i hi => ?_
      change vars.scopes.items[i]? = _
      rw [(enterCall_eq_ok hc).1, List.getElem?_append_left (Nat.lt_of_le_of_lt hi h.lt_depth)]
  | leaveCall =>
    refine h.congr fun i hi => ?_
    have hlen : base.depth < m.variables.scopes.items.dropLast.length := hd
    change m.variables.scopes.items.dropLast[i]? = _
    rw [List.dropLast_eq_take, List.getElem?_take_of_lt]
    rw [List.length_dropLast] at hlen
    omega

theorem carries_useAll {m : Memory} (h : base.Carries aliases m.variables) (uses : List Use)
    (hd : ∀ n, base.depth < (m.useAll (uses.take n)).depth) :
    base.Carries aliases (m.useAll uses).variables := by
  induction uses generalizing m with
  | nil => exact h
  | cons u rest ih => exact ih (carries_use h u (hd 1)) fun n => hd (n + 1)

end Memory

/-! ## One cell for the whole call -/

namespace Variables.Carries

variable {base now : Variables} {aliases : List (Name × Name)}

/-- Seen from the call, an alias denotes what its target denoted when the call began. -/
theorem cellFrom_of_binds
    (h : base.Carries (aliasTable aliases) now) {p x : Name}
    (hp : Binds aliases p x) (here : Bool) :
    now.cellFrom (base.depth + 1) p here = base.cell x false := by
  obtain ⟨t, ht, ha⟩ := h.callee
  simp only [cellFrom, locate, ht, ha, get?_key_aliasTable.2 hp, h.locate_callers]
  rfl

/-- Seen from the call, a name that is neither an alias nor a local variable is global. -/
theorem cellFrom_of_unbound
    (h : base.Carries (aliasTable aliases) now) {name : Name}
    (hn : ∀ x, ¬ Binds aliases name x) (hl : now.fetch (.local base.depth name.key) = none) :
    now.cellFrom (base.depth + 1) name false = .global name.key := by
  obtain ⟨t, ht, ha⟩ := h.callee
  have hunbound : (aliasTable aliases).get? name.key = none := by
    rw [Option.eq_none_iff_forall_ne_some]
    intro x hx
    exact hn x (get?_key_aliasTable.1 hx)
  have hlocal : t.locals.get? name.key = none := by
    simpa [fetch, Stack.get?, ht] using hl
  simp [cellFrom, locate, ht, ha, hunbound, Table.contains, hlocal]

theorem isSome_fetch {table : Table Name Name} (h : base.Carries table now) {level : Nat}
    (hl : level < base.depth) (key : Name) :
    (now.fetch (.local level key)).isSome = (base.fetch (.local level key)).isSome := by
  obtain ⟨s, t, hs, ht, hsame⟩ := h.callers level hl
  simpa [fetch, Stack.get?, hs, ht] using hsame.keys key

/-- When the call is left, its callers have their scopes as they are now. -/
theorem leaveCall {table : Table Name Name} (h : base.Carries table now)
    (hd : now.depth = base.depth + 1) :
    now.leaveCall.2.depth = base.depth ∧
      (∀ key here, locate now.leaveCall.2.scopes.items base.depth key here =
        locate base.scopes.items base.depth key here) ∧
      ∀ c, (∀ level k, c = .local level k → level < base.depth) →
        now.leaveCall.2.fetch c = now.fetch c := by
  have hlen : now.scopes.items.length = base.depth + 1 := hd
  have hlow : ∀ i, i < base.depth → now.leaveCall.2.scopes.items[i]? = now.scopes.items[i]? := by
    intro i hi
    change now.scopes.items.dropLast[i]? = _
    rw [List.dropLast_eq_take, List.getElem?_take_of_lt]
    omega
  refine ⟨?_, ?_, ?_⟩
  · change now.scopes.items.dropLast.length = _
    rw [List.length_dropLast, hlen, Nat.add_sub_cancel]
  · refine locate_congr fun level hl => ?_
    rw [hlow level hl]
    exact h.callers level hl
  · intro c hc
    cases c with
    | global key => rfl
    | «local» level k => simp only [fetch, Stack.get?, hlow level (hc level k rfl)]

end Variables.Carries

namespace Memory

theorem carries_enterCall {m called : Memory} {returnLine : Option Nat}
    {aliases : List (Name × Name)} (h : m.enterCall returnLine aliases = .ok called) :
    m.variables.Carries (aliasTable aliases) called.variables := by
  unfold Memory.enterCall at h
  cases hv : m.variables.enterCall returnLine aliases with
  | error e => rw [hv] at h; cases h
  | ok vars =>
    rw [hv] at h
    cases h
    exact Variables.carries_enterCall hv

/-- A value that is stored through an alias is what the caller's variable holds
once the call is left. -/
theorem get_leaveCall_set {m now : Memory} {aliases : List (Name × Name)} {p x : Name}
    (h : m.variables.Carries (aliasTable aliases) now.variables)
    (hp : Binds aliases p x) (hd : now.depth = m.depth + 1) {v w : Value} (hw : fitTo p v = .ok w)
    (here : Bool) : ∃ m', now.set p v here = .ok m' ∧ (m'.leaveCall.get x).1 = w := by
  refine ⟨{ now.remember p with «variables» := now.variables.put p w here }, ?_, ?_⟩
  · simp only [Memory.set, hw]
    rfl
  · have hcell : now.variables.cell p here = m.variables.cell x false := by
      have hfrom := h.cellFrom_of_binds hp here
      have hdepth : now.variables.depth = m.variables.depth + 1 := hd
      rwa [Variables.cellFrom, ← hdepth] at hfrom
    have hstored := h.store_cell p here w
    have hlive : now.variables.isLive (m.variables.cell x false) = true :=
      hcell ▸ now.variables.isLive_cell p here
    rw [hcell] at hstored
    -- Leaving the call changes neither where the caller's name leads nor what is there.
    have hdepth : (now.variables.store w (m.variables.cell x false)).depth = m.variables.depth + 1 := by
      rw [Variables.depth_eq_size_calls, Variables.calls_store, ← Variables.depth_eq_size_calls]
      exact hd
    obtain ⟨hleft, hlocate, hfetch⟩ := hstored.leaveCall hdepth
    have hx : ((now.variables.store w (m.variables.cell x false)).leaveCall.2).cell x false =
        m.variables.cell x false := by
      rw [Variables.cell, hleft, hlocate]
      rfl
    have hread : ((now.variables.store w (m.variables.cell x false)).leaveCall.2).lookup x = some w := by
      rw [Variables.lookup, hx, hfetch (m.variables.cell x false) fun _ _ hc =>
        Variables.locate_local hc, Variables.fetch_store_self _ hlive]
    change Variables.peek ((now.variables.put p w here).leaveCall.2) x = w
    rw [Variables.put, hcell, Variables.peek, hread]
    rfl

/-- A parameter that is passed by reference denotes one cell for as long as its
call is not left: the cell that the caller's name denoted when the call began.
No caller gains or loses a variable meanwhile, and none of its variables has
another value unless an alias of the call leads to it. Every other name that the
call has no variable for is a global one. So what is stored under the parameter
is what the caller's name reads after the return. -/
theorem a_reference_denotes_one_cell {m called : Memory} {returnLine : Option Nat}
    {aliases : List (Name × Name)} {p x : Name}
    (hcall : m.enterCall returnLine aliases = .ok called) (hp : Binds aliases p x)
    (uses : List Use) (hstay : ∀ n, m.depth < (called.useAll (uses.take n)).depth) :
    let now := called.useAll uses
    (∃ c, Denotes m.variables.scopes.items m.depth x.key c ∧
      ∀ here, now.variables.cellFrom (m.depth + 1) p here = c) ∧
    (∀ level key, level < m.depth →
      (now.variables.fetch (.local level key)).isSome =
          (m.variables.fetch (.local level key)).isSome ∧
        (now.variables.fetch (.local level key) = m.variables.fetch (.local level key) ∨
          ∃ q y, Binds aliases q y ∧
            Denotes m.variables.scopes.items m.depth y.key (.local level key))) ∧
    (∀ name, (∀ y, ¬ Binds aliases name y) →
      now.variables.fetch (.local m.depth name.key) = none →
      now.variables.cellFrom (m.depth + 1) name false = .global name.key) ∧
    ∀ v w here, now.depth = m.depth + 1 → fitTo p v = .ok w →
      ∃ m', now.set p v here = .ok m' ∧ (m'.leaveCall.get x).1 = w := by
  intro now
  have h : m.variables.Carries (aliasTable aliases) now.variables :=
    carries_useAll (carries_enterCall hcall) uses hstay
  have hdenotes := Variables.denotes_locate (Nat.le_refl m.variables.scopes.items.length)
  refine ⟨⟨_, hdenotes x.key, h.cellFrom_of_binds hp⟩, ?_, ?_, ?_⟩
  · intro level key hl
    refine ⟨h.isSome_fetch hl key, ?_⟩
    by_cases hlent : m.variables.Lends (aliasTable aliases) (.local level key)
    · obtain ⟨k, y, hk, hcell⟩ := hlent
      obtain ⟨q, hq⟩ := exists_binds hk
      exact Or.inr ⟨q, y, hq, hcell ▸ hdenotes y.key⟩
    · exact Or.inl (h.kept level key hl hlent)
  · exact fun name => h.cellFrom_of_unbound
  · exact fun v w here hd hw => get_leaveCall_set h hp hd hw here

/-- A call passes its own parameter on, and the call inside it stores through both aliases. -/
theorem a_reference_through_two_calls :
    let n : Name := .ofString "n%"
    let p : Name := .ofString "P%"
    let q : Name := .ofString "q%"
    let m : Memory := (Memory.ofSeed 7).useAll [.enterCall none [], .set n (.integer 1) true]
    let uses : List Use := [.enterCall (some 2) [(q, p)], .set q (.integer 5) true, .leaveCall]
    ∃ called, m.enterCall (some 1) [(p, n)] = .ok called ∧ Binds [(p, n)] p n ∧
      (called.useAll uses).depth = m.depth + 1 ∧
      ∃ m', (called.useAll uses).set p (.integer 9) false = .ok m' ∧
        (m'.leaveCall.get n).1 = .integer 9 := by
  intro n p q m uses
  have hcall : m.enterCall (some 1) [(p, n)] = .ok (m.use (.enterCall (some 1) [(p, n)])) := rfl
  have hbinds : Binds [(p, n)] p n := ⟨[], p, [], rfl, rfl, by simp⟩
  have hstay : ∀ k, m.depth < ((m.use (.enterCall (some 1) [(p, n)])).useAll (uses.take k)).depth := by
    intro k
    match k with
    | 0 | 1 | 2 => decide
    | k + 3 =>
      rw [List.take_of_length_le (Nat.le_add_left 3 k)]
      decide
  have hback : ((m.use (.enterCall (some 1) [(p, n)])).useAll uses).depth = m.depth + 1 := by decide
  have hcell := a_reference_denotes_one_cell hcall hbinds uses hstay
  exact ⟨_, hcall, hbinds, hback, hcell.2.2.2 (.integer 9) (.integer 9) false hback rfl⟩

end Memory

end LineBasic
