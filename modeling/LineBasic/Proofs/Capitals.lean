-- Programs and states in capitals. Names are looked up by their keys, so a
-- program acts as the one that has every name in capitals, and a state as the
-- one where the names in it, of FOR variables and of targets of aliases, are in
-- capitals. Each operation on a state commutes with this.
import LineBasic.Proofs.Names
import LineBasic.Proofs.LabelIndex
import LineBasic.Session.Basic

namespace LineBasic

/-! ## Programs -/

namespace Expression

mutual

/-- An expression with every name in capitals. -/
def folded : Expression → Expression
  | .integer n => .integer n
  | .real x => .real x
  | .string s => .string s
  | .imaginary x => .imaginary x
  | .variable name => .variable name.key
  | .element name indexes => .element name.key (foldedAll indexes)
  | .member e field => .member e.folded field.key
  | .array items => .array (foldedAll items)
  | .record members => .record (foldedMembers members)
  | .call function args => .call function.key (foldedAll args)
  | .negate e => .negate e.folded
  | .not e => .not e.folded
  | .binary op l r => .binary op l.folded r.folded

def foldedAll : List Expression → List Expression
  | [] => []
  | e :: es => e.folded :: foldedAll es

def foldedMembers : List (Name × Expression) → List (Name × Expression)
  | [] => []
  | (name, e) :: rest => (name.key, e.folded) :: foldedMembers rest

end

theorem foldedAll_eq_map (es : List Expression) : foldedAll es = es.map folded := by
  induction es with
  | nil => rfl
  | cons e es ih => rw [foldedAll, ih, List.map_cons]

mutual

/-- The expression calls TIMER, TIME$ or DATE$. -/
def readsClock : Expression → Bool
  | .integer _ | .real _ | .string _ | .imaginary _ | .variable _ => false
  | .element _ indexes => anyReadsClock indexes
  | .member e _ => e.readsClock
  | .array items => anyReadsClock items
  | .record members => memberReadsClock members
  | .call function args =>
    ["TIMER", "TIME$", "DATE$"].contains function.key.text || anyReadsClock args
  | .negate e | .not e => e.readsClock
  | .binary _ l r => l.readsClock || r.readsClock

def anyReadsClock : List Expression → Bool
  | [] => false
  | e :: es => e.readsClock || anyReadsClock es

def memberReadsClock : List (Name × Expression) → Bool
  | [] => false
  | (_, e) :: rest => e.readsClock || memberReadsClock rest

end

mutual

theorem readsClock_folded : (e : Expression) → e.folded.readsClock = e.readsClock
  | .integer _ | .real _ | .string _ | .imaginary _ | .variable _ => rfl
  | .element _ indexes => anyReadsClock_folded indexes
  | .member e _ => readsClock_folded e
  | .array items => anyReadsClock_folded items
  | .record members => memberReadsClock_folded members
  | .call function args => by
    rw [folded, readsClock, readsClock, Name.key_key, anyReadsClock_folded args]
  | .negate e => readsClock_folded e
  | .not e => readsClock_folded e
  | .binary _ l r => by rw [folded, readsClock, readsClock, readsClock_folded l, readsClock_folded r]

theorem anyReadsClock_folded : (es : List Expression) → anyReadsClock (foldedAll es) = anyReadsClock es
  | [] => rfl
  | e :: es => by
    rw [foldedAll, anyReadsClock, anyReadsClock, readsClock_folded e, anyReadsClock_folded es]

theorem memberReadsClock_folded : (members : List (Name × Expression)) →
    memberReadsClock (foldedMembers members) = memberReadsClock members
  | [] => rfl
  | (_, e) :: rest => by
    rw [foldedMembers, memberReadsClock, memberReadsClock, readsClock_folded e,
      memberReadsClock_folded rest]

end

theorem exists_of_anyReadsClock {es : List Expression} (h : anyReadsClock es = true) :
    ∃ e ∈ es, e.readsClock = true := by
  induction es with
  | nil => cases h
  | cons e es ih =>
    rw [anyReadsClock, Bool.or_eq_true] at h
    rcases h with h | h
    · exact ⟨e, List.mem_cons_self, h⟩
    · obtain ⟨e', he', hr⟩ := ih h
      exact ⟨e', List.mem_cons_of_mem _ he', hr⟩

end Expression

namespace Location

def folded : Location → Location
  | .variable name => .variable name.key
  | .element name indexes => .element name.key (indexes.map Expression.folded)
  | .member name path => .member name.key (path.map Name.key)

def indexes : Location → List Expression
  | .element _ indexes => indexes
  | .variable _ | .member .. => []

@[simp] theorem indexes_folded (l : Location) :
    l.folded.indexes = l.indexes.map Expression.folded := by
  cases l <;> rfl

@[simp] theorem name_folded (l : Location) : l.folded.name = l.name.key := by cases l <;> rfl

end Location

def Condition.folded : Condition → Condition
  | .always => .always
  | .while e => .while e.folded
  | .until e => .until e.folded

def Condition.expressions : Condition → List Expression
  | .always => []
  | .while e | .until e => [e]

def CaseTest.folded : CaseTest → CaseTest
  | .values es => .values (es.map Expression.folded)
  | .range low high => .range low.folded high.folded
  | .relation operator e => .relation operator e.folded
  | .otherwise => .otherwise

def CaseTest.expressions : CaseTest → List Expression
  | .values es => es
  | .range low high => [low, high]
  | .relation _ e => [e]
  | .otherwise => []

def PrintItem.folded : PrintItem → PrintItem
  | .expression e => .expression e.folded
  | .comma => .comma
  | .semicolon => .semicolon

def PrintItem.expressions : PrintItem → List Expression
  | .expression e => [e]
  | .comma | .semicolon => []

def Parameter.folded (p : Parameter) : Parameter := { p with name := p.name.key }

def AxisRange.folded (a : AxisRange) : AxisRange :=
  { lower := a.lower.map Expression.folded, upper := a.upper.folded }

def AxisRange.expressions (a : AxisRange) : List Expression := a.upper :: a.lower.toList

namespace Statement

/-- A statement with every name in capitals. -/
def folded : Statement → Statement
  | .remark text => .remark text
  | .label name => .label name.key
  | .assign target e => .assign target.folded e.folded
  | .localVariable name initial => .localVariable name.key (initial.map Expression.folded)
  | .dim name axes => .dim name.key (axes.map AxisRange.folded)
  | .swap a b => .swap a.folded b.folded
  | .push name e => .push name.key e.folded
  | .pop name target => .pop name.key target.folded
  | .shift name target => .shift name.key target.folded
  | .unshift name e => .unshift name.key e.folded
  | .print items => .print (items.map PrintItem.folded)
  | .if e => .if e.folded
  | .elseIf e => .elseIf e.folded
  | .else => .else
  | .endIf => .endIf
  | .unless e => .unless e.folded
  | .endUnless => .endUnless
  | .while e => .while e.folded
  | .wend => .wend
  | .do c => .do c.folded
  | .loop c => .loop c.folded
  | .until e => .until e.folded
  | .uend => .uend
  | .for name start limit step =>
    .for name.key start.folded limit.folded (step.map Expression.folded)
  | .next name => .next (name.map Name.key)
  | .select e => .select e.folded
  | .case tests => .case (tests.map CaseTest.folded)
  | .endSelect => .endSelect
  | .try => .try
  | .catch name => .catch (name.map Name.key)
  | .finally => .finally
  | .endTry => .endTry
  | .throw e => .throw e.folded
  | .exit kind name => .exit kind (name.map Name.key)
  | .continue kind name => .continue kind (name.map Name.key)
  | .goto name => .goto name.key
  | .gosub name => .gosub name.key
  | .return => .return
  | .sub name params => .sub name.key (params.map Parameter.folded)
  | .endSub => .endSub
  | .call name args => .call name.key (args.map Expression.folded)
  | .stop => .stop
  | .randomize seed => .randomize (seed.map Expression.folded)
  | .sleep e => .sleep e.folded
  | .view e => .view e.folded
  | .color foreground background => .color foreground.folded (background.map Expression.folded)
  | .locate row column => .locate row.folded column.folded
  | .cls => .cls
  | .draw shape args filled => .draw shape (args.map Expression.folded) filled
  | .tempo e => .tempo e.folded
  | .volume e => .volume e.folded
  | .voice e => .voice e.folded
  | .play channel notes => .play channel.folded notes.folded
  | .playStop => .playStop
  | .openFile path mode handle => .openFile path.folded mode handle.folded
  | .closeFile handle => .closeFile handle.folded
  | .readBytes handle amount target => .readBytes handle.folded amount.folded target.folded
  | .writeBytes handle data => .writeBytes handle.folded data.folded
  | .seek handle position => .seek handle.folded position.folded
  | .loadFile path target => .loadFile path.folded target.folded
  | .saveFile path data => .saveFile path.folded data.folded

/-- The expressions that a statement may evaluate. -/
def expressions : Statement → List Expression
  | .assign target e => e :: target.indexes
  | .localVariable _ initial => initial.toList
  | .dim _ axes => axes.flatMap AxisRange.expressions
  | .swap a b => a.indexes ++ b.indexes
  | .push _ e | .unshift _ e => [e]
  | .pop _ target | .shift _ target => target.indexes
  | .print items => items.flatMap PrintItem.expressions
  | .if e | .elseIf e | .unless e | .while e | .until e | .select e | .throw e | .sleep e | .view e
  | .tempo e | .volume e | .voice e | .closeFile e => [e]
  | .do c | .loop c => c.expressions
  | .for _ start limit step => start :: limit :: step.toList
  | .case tests => tests.flatMap CaseTest.expressions
  | .call _ args | .draw _ args _ => args
  | .randomize seed => seed.toList
  | .color foreground background => foreground :: background.toList
  | .locate a b | .play a b | .writeBytes a b | .seek a b | .saveFile a b => [a, b]
  | .openFile path _ handle => path :: handle.indexes
  | .readBytes handle amount target => handle :: amount :: target.indexes
  | .loadFile path target => path :: target.indexes
  | _ => []

/-- The statement needs to know the time: it calls a function of the clock, or
is a RANDOMIZE that takes its seed from the clock. -/
def readsClock : Statement → Bool
  | .randomize none => true
  | st => st.expressions.any Expression.readsClock

theorem readsClock_of_mem {st : Statement} {e : Expression} (he : e ∈ st.expressions)
    (hr : e.readsClock = true) : st.readsClock = true := by
  unfold readsClock
  split
  · rfl
  · exact List.any_eq_true.2 ⟨e, he, hr⟩

/-- What the parts of a list of a statement evaluate, in capitals. -/
theorem flatMap_folded {α : Type} {fold : α → α} {exprs : α → List Expression}
    (h : ∀ a, exprs (fold a) = (exprs a).map Expression.folded) (l : List α) :
    (l.map fold).flatMap exprs = (l.flatMap exprs).map Expression.folded := by
  rw [List.flatMap_map, List.map_flatMap]
  simp only [h]

theorem expressions_folded (st : Statement) :
    st.folded.expressions = st.expressions.map Expression.folded := by
  cases st with
  | dim name axes => exact flatMap_folded (fun a => by cases a with | mk l u => cases l <;> rfl) axes
  | print items => exact flatMap_folded (fun i => by cases i <;> rfl) items
  | case tests => exact flatMap_folded (fun t => by cases t <;> rfl) tests
  | «do» c | loop c => cases c <;> rfl
  | localVariable name o | randomize o | color _ o | «for» _ _ _ o => cases o <;> rfl
  | _ => simp [folded, expressions]

@[simp] theorem readsClock_folded (st : Statement) : st.folded.readsClock = st.readsClock := by
  have hany : st.folded.expressions.any Expression.readsClock =
      st.expressions.any Expression.readsClock := by
    rw [expressions_folded, List.any_map]
    congr 1
    funext e
    exact e.readsClock_folded
  cases st with
  | randomize seed =>
    cases seed with
    | none => rfl
    | some e => exact hany
  | _ => exact hany

/-- A CATCH line that names a variable. -/
def namesError : Statement → Bool
  | .catch (some _) => true
  | _ => false

/-- Two parameters of a SUB are alike up to case. -/
def repeatsParameter : Statement → Bool
  | .sub _ params => !decide (params.map (·.name.key)).Nodup
  | _ => false

@[simp] theorem repeatsParameter_folded (st : Statement) :
    st.folded.repeatsParameter = st.repeatsParameter := by
  cases st with
  | sub name params =>
    have hkeys : (params.map Parameter.folded).map (·.name.key) = params.map (·.name.key) := by
      simp [Function.comp_def, Parameter.folded, Name.key_key]
    simp only [folded, repeatsParameter, hkeys]
  | _ => rfl

@[simp] theorem namesError_folded (st : Statement) : st.folded.namesError = st.namesError := by
  cases st with
  | «catch» name => cases name <;> rfl
  | _ => rfl

@[simp] theorem role_folded (st : Statement) : st.folded.role = st.role := by cases st <;> rfl

end Statement

def Line.folded (l : Line) : Line := { l with statement := l.statement.folded }

namespace Program

/-- Two programs that have the same text but for letter case in names. -/
def Alike (p q : Program) : Prop := p.lines.map Line.folded = q.lines.map Line.folded

def folded (p : Program) : Program := ofLines (p.lines.map Line.folded)

def readsClock (p : Program) : Bool := p.lines.any fun l => l.statement.readsClock

theorem readsClock_of_statement? {p : Program} {line : Nat} {st : Statement}
    (hst : p.statement? line = some st) (hr : st.readsClock = true) : p.readsClock = true := by
  obtain ⟨l, hl, rfl⟩ := Option.map_eq_some_iff.1 hst
  exact List.any_eq_true.2 ⟨l, List.mem_of_getElem? hl, hr⟩

/-- A CATCH line of the program names a variable. -/
def namesErrors (p : Program) : Bool := p.lines.any fun l => l.statement.namesError

/-- A SUB of the program has two parameters that are alike up to case. -/
def repeatsParameters (p : Program) : Bool := p.lines.any fun l => l.statement.repeatsParameter

theorem nodup_of_repeatsParameters {p : Program} {line : Nat} {name : Name}
    {params : List Parameter} (h : p.repeatsParameters = false)
    (hst : p.statement? line = some (.sub name params)) : (params.map (·.name.key)).Nodup := by
  obtain ⟨l, hl, hsub⟩ := Option.map_eq_some_iff.1 hst
  have hnot := List.any_eq_false.1 h l (List.mem_of_getElem? hl)
  rw [hsub] at hnot
  simpa [Statement.repeatsParameter] using hnot

section Tests

variable {test : Statement → Bool} (ht : ∀ st, test st.folded = test st)

include ht

theorem any_folded (lines : List Line) :
    (lines.map Line.folded).any (fun l => test l.statement) = lines.any fun l => test l.statement := by
  rw [List.any_map]
  congr 1
  funext l
  exact ht l.statement

/-- What is asked of all statements of two programs that are alike has one answer,
if letter case does not matter for it. -/
theorem Alike.any_eq {p q : Program} (h : p.Alike q) :
    p.lines.any (fun l => test l.statement) = q.lines.any fun l => test l.statement := by
  rw [← any_folded ht p.lines, h, any_folded ht q.lines]

end Tests

/-- `q` is `p` in capitals. Neither `p` nor `q` reads the clock unless `timed`. -/
structure Echoes (timed : Bool) (p q : Program) : Prop where
  lines : q.lines = p.lines.map Line.folded
  labels : ∀ name, q.labelPlace? name.key = p.labelPlace? name
  clock : ∀ l ∈ p.lines, l.statement.readsClock = true → timed = true

/-- The program in capitals echoes the program. -/
theorem echoes_folded {timed : Bool} {p : Program} (hp : p.Indexed)
    (hc : p.readsClock = true → timed = true) : p.Echoes timed p.folded where
  lines := rfl
  labels name := by
    have hcarries : ∀ l : Line, l.folded.carries name.key = l.carries name := by
      rintro ⟨indent, st⟩
      cases st <;> simp [Line.folded, Line.carries, Line.label?, Statement.folded, Statement.label?,
        Name.alike]
    have hq : p.folded.Indexed := indexed_reindexed _
    rw [hp, hq]
    change (p.lines.map Line.folded).findIdx? _ = p.lines.findIdx? _
    rw [List.findIdx?_map]
    congr 1
    funext l
    exact hcarries l
  clock l hl hr := hc (List.any_eq_true.2 ⟨l, hl, hr⟩)

section Search

variable {wanted wanted' : Statement → Bool} (hw : ∀ st, wanted' st.folded = wanted st)

include hw

theorem look_folded (indent : Nat) (l : Line) :
    look indent wanted' l.folded = look indent wanted l := by
  unfold look Line.role Line.folded
  rw [hw, Statement.role_folded]

theorem searchDown_folded (indent place : Nat) (lines : List Line) :
    searchDown indent wanted' place (lines.map Line.folded) =
      searchDown indent wanted place lines := by
  induction lines generalizing place with
  | nil => rfl
  | cons l rest ih =>
    rw [List.map_cons, searchDown, searchDown, look_folded hw, ih]

theorem searchUp_folded (indent : Nat) (lines : List Line) :
    searchUp indent wanted' (lines.map Line.folded) = searchUp indent wanted lines := by
  induction lines with
  | nil => rfl
  | cons l rest ih =>
    rw [List.map_cons, searchUp, searchUp, look_folded hw, ih, List.length_map]

variable {timed : Bool} {p q : Program}

theorem Echoes.closer (h : p.Echoes timed q) (start : Nat) :
    q.closer start wanted' = p.closer start wanted := by
  unfold Program.closer
  rw [h.lines, List.getElem?_map]
  cases p.lines[start]? with
  | none => rfl
  | some l =>
    dsimp only [Option.map_some]
    rw [← List.map_drop, searchDown_folded hw]
    rfl

theorem Echoes.opener (h : p.Echoes timed q) (place : Nat) :
    q.opener place wanted' = p.opener place wanted := by
  unfold Program.opener
  rw [h.lines, List.getElem?_map]
  cases p.lines[place]? with
  | none => rfl
  | some l =>
    dsimp only [Option.map_some]
    rw [← List.map_take, ← List.map_reverse, searchUp_folded hw]
    rfl

end Search

namespace Echoes

variable {timed : Bool} {p q : Program}

theorem statement? (h : p.Echoes timed q) (line : Nat) :
    q.statement? line = (p.statement? line).map Statement.folded := by
  unfold Program.statement? Program.line?
  rw [h.lines, List.getElem?_map]
  cases p.lines[line]? <;> rfl

theorem readsClock (h : p.Echoes timed q) {line : Nat} {st : Statement}
    (hst : p.statement? line = some st) : st.readsClock = true → timed = true := by
  obtain ⟨l, hl, rfl⟩ := Option.map_eq_some_iff.1 hst
  exact h.clock l (List.mem_of_getElem? hl)

theorem subPlace? (h : p.Echoes timed q) (name : Name) :
    q.subPlace? name.key = p.subPlace? name := by
  unfold Program.subPlace?
  rw [h.lines, List.findIdx?_map]
  congr 1
  funext ⟨indent, st⟩
  cases st <;> simp [Line.folded, Statement.folded, Name.alike]

end Echoes

end Program

/-! ## Tables and stacks whose entries are changed one by one -/

namespace Table

variable {κ α β : Type}

theorem place_map [DecidableEq κ] [LT κ] [DecidableLT κ] (f : α → β) (key : κ) (a : α)
    (l : List (κ × α)) :
    (place key a l).map (fun e => (e.1, f e.2)) = place key (f a) (l.map fun e => (e.1, f e.2)) := by
  induction l with
  | nil => rfl
  | cons e rest ih =>
    obtain ⟨k, b⟩ := e
    rw [place, List.map_cons, place]
    split
    · rfl
    · split
      · rfl
      · rw [List.map_cons, ih]

theorem mapValues_insert [DecidableEq κ] [LT κ] [DecidableLT κ] (t : Table κ α) (f : α → β) (key : κ)
    (a : α) : (t.insert key a).mapValues f = (t.mapValues f).insert key (f a) :=
  congrArg Table.mk (place_map f key a t.entries)

theorem mapValues_ofList [DecidableEq κ] [LT κ] [DecidableLT κ] (f : α → β) (pairs : List (κ × α)) :
    (ofList pairs).mapValues f = ofList (pairs.map fun e => (e.1, f e.2)) := by
  have hfold : ∀ t : Table κ α, (pairs.foldl (fun t p => t.insert p.1 p.2) t).mapValues f =
      (pairs.map fun e => (e.1, f e.2)).foldl (fun t p => t.insert p.1 p.2) (t.mapValues f) := by
    induction pairs with
    | nil => exact fun t => rfl
    | cons e rest ih =>
      intro t
      rw [List.foldl_cons, ih, mapValues_insert, List.map_cons, List.foldl_cons]
  exact hfold {}

theorem contains_mapValues [DecidableEq κ] (t : Table κ α) (f : α → β) (key : κ) :
    (t.mapValues f).contains key = t.contains key := by
  simp [contains]

end Table

namespace Stack

variable {α : Type} (s : Stack α) (f : α → α)

def mapItems : Stack α := { s with items := s.items.map f }

@[simp] theorem mapItems_items : (s.mapItems f).items = s.items.map f := rfl

@[simp] theorem mapItems_size : (s.mapItems f).size = s.size := by simp [size]

@[simp] theorem mapItems_get? (i : Nat) : (s.mapItems f).get? i = (s.get? i).map f := by
  simp [get?]

@[simp] theorem mapItems_top? : (s.mapItems f).top? = s.top?.map f := by simp [top?]

theorem mapItems_truncate (n : Nat) : (s.truncate n).mapItems f = (s.mapItems f).truncate n := by
  simp [mapItems, truncate, List.map_take]

theorem mapItems_pop : s.pop.mapItems f = (s.mapItems f).pop := by
  simp [mapItems, pop, List.map_dropLast]

theorem mapItems_erase (i : Nat) : (s.erase i).mapItems f = (s.mapItems f).erase i := by
  simp [mapItems, erase, List.eraseIdx_eq_take_drop_succ, List.map_take, List.map_drop]

theorem mapItems_modify (i : Nat) {g h : α → α} (hg : ∀ a, f (g a) = h (f a)) :
    (s.modify i g).mapItems f = (s.mapItems f).modify i h := by
  have hitems : (s.items.modify i g).map f = (s.items.map f).modify i h := by
    apply List.ext_getElem?
    intro j
    simp only [List.getElem?_map, List.getElem?_modify]
    by_cases hj : i = j
    · cases s.items[j]? <;> simp [hj, hg]
    · cases s.items[j]? <;> simp [hj]
  simp only [mapItems, modify, hitems]

theorem mapItems_push (a : α) :
    (s.mapItems f).push (f a) = (s.push a).map (·.mapItems f) := by
  unfold push
  simp only [mapItems_items, List.length_map]
  by_cases h : s.items.length < s.limit
  · rw [if_pos h, if_pos (show s.items.length < (s.mapItems f).limit from h)]
    simp [mapItems, Except.map]
  · rw [if_neg h, if_neg (show ¬ s.items.length < (s.mapItems f).limit from h)]
    rfl

theorem lastPlace?_map {β : Type} (g : α → β) (test : β → Bool) (l : List α) :
    LineBasic.lastPlace? test (l.map g) = LineBasic.lastPlace? (fun a => test (g a)) l := by
  induction l with
  | nil => rfl
  | cons a rest ih => rw [List.map_cons, LineBasic.lastPlace?, LineBasic.lastPlace?, ih]

theorem mapItems_lastPlace? {test : α → Bool} (h : ∀ a, test (f a) = test a) :
    (s.mapItems f).lastPlace? test = s.lastPlace? test := by
  unfold lastPlace?
  rw [mapItems_items, lastPlace?_map]
  simp only [h]

end Stack

/-! ## Variables -/

/-- A scope with the targets of its aliases in capitals. -/
def Scope.folded (s : Scope) : Scope := { s with aliases := s.aliases.mapValues Name.key }

theorem fitTo_key (name : Name) (v : Value) : fitTo name.key v = fitTo name v := by
  simp only [fitTo, Name.isArray_key, Name.ofName_key]

theorem Value.defaultFor_key (name : Name) : defaultFor name.key = defaultFor name := by
  simp only [defaultFor, Name.isArray_key, Name.ofName_key]

namespace Variables

variable (vars : Variables) (name : Name) (here : Bool)

def folded : Variables := { vars with scopes := vars.scopes.mapItems Scope.folded }

theorem locate_folded (scopes : List Scope) (depth : Nat) (key : Name) (here : Bool) :
    locate (scopes.map Scope.folded) depth key here = locate scopes depth key here := by
  induction depth generalizing key here with
  | zero => rfl
  | succ level ih =>
    rw [locate, locate, List.getElem?_map]
    cases scopes[level]? with
    | none => rfl
    | some scope =>
      simp only [Option.map_some, Scope.folded, Table.get?_mapValues]
      cases scope.aliases.get? key with
      | none => rfl
      | some target => simp only [Option.map_some, Name.key_key, ih]

@[simp] theorem depth_folded : vars.folded.depth = vars.depth := Stack.mapItems_size _ _

theorem cell_folded : vars.folded.cell name here = vars.cell name here := by
  simp only [cell, depth_folded]
  exact locate_folded _ _ _ _

@[simp] theorem cell_key : vars.cell name.key here = vars.cell name here := by simp [cell]

@[simp] theorem fetch_folded (c : Cell) : vars.folded.fetch c = vars.fetch c := by
  cases c with
  | global key => rfl
  | «local» level key =>
    simp only [fetch, folded, Stack.mapItems_get?]
    cases vars.scopes.get? level <;> rfl

@[simp] theorem isLive_folded (c : Cell) : vars.folded.isLive c = vars.isLive c := by
  cases c with
  | global key => rfl
  | «local» level key => simp only [isLive, depth_folded]

theorem store_folded (v : Value) (c : Cell) : (vars.store v c).folded = vars.folded.store v c := by
  cases c with
  | global key => rfl
  | «local» level key =>
    simp only [store, folded]
    rw [Stack.mapItems_modify]
    exact fun _ => rfl

theorem lookup_folded : vars.folded.lookup name = vars.lookup name := by
  simp only [lookup, cell_folded, fetch_folded]

theorem lookup_key : vars.lookup name.key = vars.lookup name := by
  simp only [lookup, cell_key]

theorem peek_folded : vars.folded.peek name = vars.peek name := by
  simp only [peek, lookup_folded]

theorem peek_key : vars.peek name.key = vars.peek name := by
  simp only [peek, lookup_key, Value.defaultFor_key]

theorem hasLocal_folded : vars.folded.hasLocal name = vars.hasLocal name := by
  simp only [hasLocal, folded, Stack.mapItems_top?]
  cases vars.scopes.top? with
  | none => rfl
  | some scope => simp only [Option.map_some, Scope.folded, Table.contains_mapValues]

theorem hasLocal_key : vars.hasLocal name.key = vars.hasLocal name := by
  simp only [hasLocal, Name.key_key]

theorem element_folded (is : List Int64) : vars.folded.element name is = vars.element name is := by
  simp only [element, lookup_folded]

theorem element_key (is : List Int64) : vars.element name.key is = vars.element name is := by
  simp only [element, lookup_key]

theorem put_folded (v : Value) : (vars.put name v here).folded = vars.folded.put name v here := by
  simp only [put, store_folded, cell_folded]

theorem put_key (v : Value) : vars.put name.key v here = vars.put name v here := by
  simp only [put, cell_key]

theorem slot_folded : vars.folded.slot name =
    ((vars.slot name).1, (vars.slot name).2.1, (vars.slot name).2.2.folded) := by
  simp only [slot, cell_folded, fetch_folded]
  cases vars.fetch (vars.cell name false) with
  | some v => rfl
  | none => simp only [store_folded]

theorem slot_key : vars.slot name.key = vars.slot name := by
  simp only [slot, cell_key, Value.defaultFor_key]

/-- A call whose aliases are spelled in capitals opens the same scope in capitals. -/
theorem enterCall_folded (returnLine : Option Nat) (aliases : List (Name × Name)) :
    vars.folded.enterCall returnLine (aliases.map fun a => (a.1.key, a.2.key)) =
      (vars.enterCall returnLine aliases).map folded := by
  have hscope : (⟨{}, Table.ofList ((aliases.map fun a => (a.1.key, a.2.key)).map
      fun a => (a.1.key, a.2)), returnLine⟩ : Scope) =
      Scope.folded ⟨{}, Table.ofList (aliases.map fun a => (a.1.key, a.2)), returnLine⟩ := by
    simp only [Scope.folded, Table.mapValues_ofList, List.map_map, Function.comp_def, Name.key_key]
  unfold enterCall
  rw [hscope]
  dsimp only [folded]
  rw [Stack.mapItems_push]
  cases vars.scopes.push ⟨{}, Table.ofList (aliases.map fun a => (a.1.key, a.2)), returnLine⟩ <;> rfl

theorem leaveCall_folded :
    vars.folded.leaveCall = (vars.leaveCall.1, vars.leaveCall.2.folded) := by
  simp only [leaveCall, folded, Stack.mapItems_top?, Stack.mapItems_pop]
  cases vars.scopes.top? <;> rfl

theorem cutTo_folded (depth : Nat) : (vars.cutTo depth).folded = vars.folded.cutTo depth := by
  simp only [cutTo, folded, Stack.mapItems_truncate]

theorem callSite_folded (depth : Nat) : vars.folded.callSite depth = vars.callSite depth := by
  simp only [callSite, folded, Stack.mapItems_get?]
  cases vars.scopes.get? depth <;> rfl

end Variables

/-! ## Blocks -/

/-- An error without its message, which may quote a name as it is spelled. -/
def Error.unworded (e : Error) : Error := { e with message := "" }

def ForLoop.folded (l : ForLoop) : ForLoop := { l with name := l.name.key }

/-- A TRY block without the message of the error that waits in it. -/
def TryBlock.unworded (t : TryBlock) : TryBlock := { t with pending := t.pending.map Error.unworded }

/-- The state of a block with the variable of a FOR loop in capitals and without
the message of an error that waits. -/
def FrameState.folded : FrameState → FrameState
  | .for loop => .for loop.folded
  | .try block => .try block.unworded
  | state => state

theorem ForLoop.folded_eq_iff {l m : ForLoop} : l.folded = m.folded ↔
    l.name.key = m.name.key ∧ l.start = m.start ∧ l.limit = m.limit ∧ l.step = m.step ∧
      l.counter = m.counter ∧ l.assigned = m.assigned := by
  simp [folded]

theorem TryBlock.unworded_eq_iff {t u : TryBlock} : t.unworded = u.unworded ↔
    t.phase = u.phase ∧ t.catchLine = u.catchLine ∧ t.finallyLine = u.finallyLine ∧
      t.pending.map Error.unworded = u.pending.map Error.unworded := by
  simp [unworded]

def Frame.folded (f : Frame) : Frame := { f with state := f.state.folded }

namespace Frames

variable (fs : Frames)

def folded : Frames := fs.mapItems Frame.folded

theorem place?_folded (line depth : Nat) : fs.folded.place? line depth = fs.place? line depth :=
  fs.mapItems_lastPlace? _ fun _ => rfl

theorem leave_folded (line depth : Nat) :
    (fs.leave line depth).folded = fs.folded.leave line depth := by
  simp only [leave, place?_folded]
  cases fs.place? line depth with
  | none => rfl
  | some i => exact fs.mapItems_truncate _ _

theorem enter_folded (f : Frame) : fs.folded.enter f.folded = (fs.enter f).map folded := by
  simp only [enter]
  rw [show f.folded.first = f.first from rfl, show f.folded.depth = f.depth from rfl, ← leave_folded]
  exact (fs.leave f.first f.depth).mapItems_push _ _

theorem unwind_folded (depth : Nat) : (fs.unwind depth).folded = fs.folded.unwind depth := by
  have hplace : fs.folded.lastPlace? (fun f => f.depth ≤ depth) =
      fs.lastPlace? fun f => f.depth ≤ depth := fs.mapItems_lastPlace? _ fun _ => rfl
  unfold unwind
  rw [hplace]
  split <;> exact fs.mapItems_truncate _ _

end Frames

end LineBasic
