-- The index of labels under edits. Insertions and most deletions shift the
-- entries of the index, other edits make it anew, and either way a label leads
-- to the first line that carries it, in whatever letter case.
import LineBasic.Proofs.Labels

namespace LineBasic

namespace Line

/-- The line is a LABEL of this name, whatever its letter case. -/
def carries (name : Name) (l : Line) : Bool := l.label?.any (·.alike name)

theorem carries_of_label {l : Line} {label : Name} (h : l.label? = some label) (name : Name) :
    l.carries name = decide (label.key = name.key) := by
  simp [carries, h, Name.alike]

theorem carries_of_plain {l : Line} (h : l.label? = none) (name : Name) :
    l.carries name = false := by
  simp [carries, h]

end Line

/-- One edit of a program. -/
inductive Edit where
  | insert (place : Nat) (line : Line)
  | append (line : Line)
  | delete (place : Nat)
  | replace (place : Nat) (line : Line)
  | clear
  /-- Makes the index of labels anew. -/
  | reindex

namespace Program

/-! ## Edits in a row -/

def edit (p : Program) : Edit → Program
  | .insert place line => p.insert place line
  | .append line => p.append line
  | .delete place => (p.delete place).2
  | .replace place line => (p.replace place line).2
  | .clear => {}
  | .reindex => p.reindexed

def editAll (p : Program) (edits : List Edit) : Program := edits.foldl edit p

/-- A program before its first edit. -/
inductive New : Program → Prop where
  | empty : New {}
  | ofLines (lines : List Line) : New (ofLines lines)
  | ofStatements (statements : List Statement) : New (ofStatements statements)

/-! ## The first line of a label -/

/-- The place of the first line that carries a name, found by going over the lines. -/
def firstLine? (p : Program) (name : Name) : Option Nat := p.lines.findIdx? (·.carries name)

/-- The index agrees with the lines. -/
def Indexed (p : Program) : Prop := ∀ name, p.labelPlace? name = p.firstLine? name

theorem get?_insertNew (labels : Table Name Nat) (key other : Name) (place : Nat) :
    (labels.insertNew key place).get? other =
      (labels.get? other).or (if key = other then some place else none) := by
  unfold Table.insertNew Table.contains
  by_cases hk : key = other
  · subst hk
    cases hl : labels.get? key with
    | some i => simp [hl]
    | none => simp
  · split
    · simp
    · simp [Table.get?_insert_ne _ hk]

theorem get?_indexFrom (labels : Table Name Nat) (place : Nat) (lines : List Line) (name : Name) :
    (indexFrom labels place lines).get? name.key =
      (labels.get? name.key).or ((lines.findIdx? (·.carries name)).map (· + place)) := by
  induction lines generalizing labels place with
  | nil => simp [indexFrom]
  | cons l rest ih =>
    rw [indexFrom, List.findIdx?_cons]
    split
    · rename_i label hl
      rw [ih, get?_insertNew, Line.carries_of_label hl, Option.or_assoc]
      by_cases hk : label.key = name.key
      · simp [hk]
      · simp [hk, Option.map_map, Function.comp_def, Nat.add_assoc, Nat.add_comm 1]
    · rename_i hl
      rw [ih, Line.carries_of_plain hl]
      simp [Option.map_map, Function.comp_def, Nat.add_assoc, Nat.add_comm 1]

theorem indexed_reindexed (p : Program) : p.reindexed.Indexed := by
  intro name
  have h := get?_indexFrom {} 0 p.lines name
  simpa [labelPlace?, firstLine?, reindexed] using h

/-! ## Edits keep the index -/

/-- The first line of a label before and from a place on. -/
theorem findIdx?_split (lines : List Line) (place : Nat) (test : Line → Bool) :
    lines.findIdx? test = ((lines.take place).findIdx? test).or
      (((lines.drop place).findIdx? test).map (· + min place lines.length)) := by
  rw [← List.length_take, ← List.findIdx?_append, List.take_append_drop]

theorem lt_of_findIdx?_take {lines : List Line} {place i : Nat} {test : Line → Bool}
    (h : (lines.take place).findIdx? test = some i) : i < place := by
  have hlt := (List.findIdx?_eq_some_iff_getElem.1 h).1
  rw [List.length_take] at hlt
  omega

/-- The entries of an index that agrees with the lines, after those from `cut` on moved by one. -/
theorem Indexed.get?_shifted {p : Program} (h : p.Indexed) {cut : Nat} (hcut : cut ≤ p.lines.length)
    (name : Name) :
    (p.labels.mapValues fun a => if cut ≤ a then a + 1 else a).get? name.key =
      ((p.lines.take cut).findIdx? (·.carries name)).or
        (((p.lines.drop cut).findIdx? (·.carries name)).map (· + 1 + cut)) := by
  have hold : p.labels.get? name.key = _ := (h name).trans (findIdx?_split p.lines cut _)
  rw [Table.get?_mapValues, hold, Nat.min_eq_left hcut]
  cases ht : (p.lines.take cut).findIdx? (·.carries name) with
  | some i =>
    have hlt : i < cut := lt_of_findIdx?_take ht
    simp [Nat.not_le.2 hlt]
  | none => simp [Option.map_map, Function.comp_def, Nat.add_right_comm]

/-- A line that is put in makes room: labels from its place on move by one. It
takes over its own label unless an earlier line carries it. -/
theorem Indexed.insert {p : Program} (h : p.Indexed) (place : Nat) (line : Line) :
    (p.insert place line).Indexed := by
  intro name
  have hcut : min place p.size ≤ p.lines.length := Nat.min_le_right _ _
  generalize hplace : min place p.size = cut at hcut
  have hshift := h.get?_shifted hcut name
  have hnew : (p.insert place line).firstLine? name =
      ((p.lines.take cut).findIdx? (·.carries name)).or
        (if line.carries name then some cut
          else ((p.lines.drop cut).findIdx? (·.carries name)).map (· + 1 + cut)) := by
    simp only [firstLine?, Program.insert, hplace, List.findIdx?_append, List.findIdx?_cons,
      List.length_take, Nat.min_eq_left hcut]
    split <;> simp [Option.map_map, Function.comp_def]
  rw [hnew]
  simp only [labelPlace?, Program.insert, hplace]
  generalize p.labels.mapValues _ = shifted at hshift ⊢
  cases hl : line.label? with
  | none => simp [hshift, Line.carries_of_plain hl]
  | some label =>
    rw [Line.carries_of_label hl]
    by_cases hk : label.key = name.key
    · -- The line has the label that is looked up, so it counts unless one stands before it.
      dsimp only
      rw [hk, hshift]
      cases ht : (p.lines.take cut).findIdx? (·.carries name) with
      | some i => simp [hshift, ht, lt_of_findIdx?_take ht]
      | none =>
        cases (p.lines.drop cut).findIdx? (·.carries name) with
        | some i => simp [Nat.not_lt.2 (Nat.le_add_left cut (i + 1))]
        | none => simp
    · -- The entry of another label is not touched.
      have hother : ∀ i, (shifted.insert label.key i).get? name.key = shifted.get? name.key :=
        Table.get?_insert_ne shifted hk
      dsimp only
      split
      · split
        · simp [hshift, hk]
        · simp [hother, hshift, hk]
      · simp [hother, hshift, hk]

/-- The line at a place parts the lines before it from those after it. -/
theorem findIdx?_around {lines : List Line} {place : Nat} {line : Line} (test : Line → Bool)
    (h : lines[place]? = some line) :
    lines.findIdx? test = ((lines.take place).findIdx? test).or
      (if test line then some place
        else ((lines.drop (place + 1)).findIdx? test).map (· + 1 + place)) := by
  obtain ⟨hlt, hline⟩ := List.getElem?_eq_some_iff.1 h
  rw [findIdx?_split lines place test, List.drop_eq_getElem_cons hlt, hline,
    Nat.min_eq_left (Nat.le_of_lt hlt), List.findIdx?_cons]
  split <;> simp [Option.map_map, Function.comp_def]

/-- A line that is no label leaves a gap that closes: labels after it move back by one. -/
theorem Indexed.delete {p : Program} (h : p.Indexed) (place : Nat) :
    (p.delete place).2.Indexed := by
  unfold Program.delete
  split
  · exact h
  · rename_i line hline
    dsimp only
    split
    · exact indexed_reindexed _
    · rename_i hl
      intro name
      have hlt : place < p.lines.length := (List.getElem?_eq_some_iff.1 hline).1
      have hold : p.labels.get? name.key = _ := (h name).trans (findIdx?_around _ hline)
      simp only [labelPlace?, firstLine?, Table.get?_mapValues, hold, Line.carries_of_plain hl,
        List.eraseIdx_eq_take_drop_succ, List.findIdx?_append, List.length_take,
        Nat.min_eq_left (Nat.le_of_lt hlt)]
      cases ht : (p.lines.take place).findIdx? (·.carries name) with
      | some i =>
        have hi : i < place := lt_of_findIdx?_take ht
        simp [Nat.not_lt.2 (Nat.le_of_lt hi)]
      | none =>
        cases (p.lines.drop (place + 1)).findIdx? (·.carries name) with
        | none => simp
        | some i =>
          have hi : place < i + 1 + place := by omega
          simp only [Option.none_or, Option.map_some, Bool.false_eq_true, if_false, hi, if_true,
            Option.some.injEq]
          omega

/-- A plain line in the place of a plain line changes no label. -/
theorem Indexed.replace {p : Program} (h : p.Indexed) (place : Nat) (line : Line) :
    (p.replace place line).2.Indexed := by
  unfold Program.replace
  split
  · exact h
  · rename_i old hold
    dsimp only
    split
    · exact indexed_reindexed _
    · rename_i hl
      simp only [Bool.or_eq_true, not_or, Option.not_isSome_iff_eq_none] at hl
      intro name
      have hlt : place < p.lines.length := (List.getElem?_eq_some_iff.1 hold).1
      have hset : (p.lines.set place line)[place]? = some line := by
        rw [List.getElem?_set_self hlt]
      refine (h name).trans ?_
      rw [firstLine?, firstLine?, findIdx?_around _ hold, findIdx?_around _ hset,
        Line.carries_of_plain hl.1, Line.carries_of_plain hl.2, List.take_set_of_le (Nat.le_refl _),
        List.drop_set_of_lt (Nat.lt_succ_self _)]

theorem indexed_edit {p : Program} (h : p.Indexed) (e : Edit) : (p.edit e).Indexed := by
  cases e with
  | insert place line => exact h.insert place line
  | append line => exact h.insert p.size line
  | delete place => exact h.delete place
  | replace place line => exact h.replace place line
  | clear => exact indexed_reindexed {}
  | reindex => exact indexed_reindexed p

theorem indexed_editAll {p : Program} (h : p.Indexed) (edits : List Edit) :
    (p.editAll edits).Indexed := by
  induction edits generalizing p with
  | nil => exact h
  | cons e rest ih => exact ih (indexed_edit h e)

theorem New.indexed {p : Program} (h : p.New) : p.Indexed := by
  cases h with
  | empty => exact indexed_reindexed {}
  | ofLines lines => exact indexed_reindexed _
  | ofStatements statements => exact indexed_reindexed _

/-! ## What the index says -/

theorem lines_delete_insert (p : Program) (place : Nat) (line : Line) :
    ((p.insert place line).delete (min place p.size)).2.lines = p.lines := by
  have hcut : min place p.size ≤ p.lines.length := Nat.min_le_right _ _
  have hlines : (p.insert place line).lines =
      p.lines.take (min place p.size) ++ line :: p.lines.drop (min place p.size) := rfl
  generalize min place p.size = cut at hcut hlines
  have hlen : (p.lines.take cut).length = cut := by rw [List.length_take, Nat.min_eq_left hcut]
  have hget : (p.insert place line).lines[cut]? = some line := by
    rw [hlines, List.getElem?_append_right (by omega), hlen]
    simp
  have herase : (p.insert place line).lines.eraseIdx cut = p.lines := by
    rw [hlines, List.eraseIdx_append_of_length_le (by omega), hlen]
    simp
  unfold Program.delete
  rw [hget]
  dsimp only
  split <;> exact herase

namespace Indexed

variable {p : Program}

theorem labelPlace?_eq_some (h : p.Indexed) (name : Name) (i : Nat) :
    p.labelPlace? name = some i ↔
      (∃ l, p.lines[i]? = some l ∧ l.carries name = true) ∧
        ∀ j l, j < i → p.lines[j]? = some l → l.carries name = false := by
  rw [h name, firstLine?, List.findIdx?_eq_some_iff_getElem]
  constructor
  · rintro ⟨hi, hcarries, hbefore⟩
    refine ⟨⟨_, List.getElem?_eq_getElem hi, hcarries⟩, ?_⟩
    intro j l hj hl
    obtain ⟨hlt, rfl⟩ := List.getElem?_eq_some_iff.1 hl
    simpa using hbefore j hj
  · rintro ⟨⟨l, hl, hcarries⟩, hbefore⟩
    obtain ⟨hi, rfl⟩ := List.getElem?_eq_some_iff.1 hl
    refine ⟨hi, hcarries, ?_⟩
    intro j hj
    have hlt : j < p.lines.length := Nat.lt_trans hj hi
    simp [hbefore j _ hj (List.getElem?_eq_getElem hlt)]

theorem labelPlace?_eq_none (h : p.Indexed) (name : Name) :
    p.labelPlace? name = none ↔ ∀ l ∈ p.lines, l.carries name = false := by
  rw [h name, firstLine?, List.findIdx?_eq_none_iff]

/-- Two indexes that agree with the same lines agree with each other. -/
theorem labelPlace?_congr {q : Program} (hp : p.Indexed) (hq : q.Indexed) (hl : q.lines = p.lines)
    (name : Name) : q.labelPlace? name = p.labelPlace? name := by
  rw [hp name, hq name, firstLine?, firstLine?, hl]

end Indexed

theorem hasLabel_eq_false (p : Program) (name : Name) :
    p.hasLabel name = false ↔ p.labelPlace? name = none := by
  simp [hasLabel, Table.contains, labelPlace?]

/-- A look at the index of a program that was made and edited in any way finds
the first line that carries the name, and nothing if there is none. The index
made anew says the same, and so does the index after a line came and went. -/
theorem labels_lead_to_their_first_line {p : Program} (h : p.New) (edits : List Edit) (name : Name) :
    let q := p.editAll edits
    (∀ i, q.labelPlace? name = some i ↔
      (∃ l, q.lines[i]? = some l ∧ l.carries name = true) ∧
        ∀ j l, j < i → q.lines[j]? = some l → l.carries name = false) ∧
    (q.labelPlace? name = none ↔ ∀ l ∈ q.lines, l.carries name = false) ∧
    (q.hasLabel name = false ↔ ∀ l ∈ q.lines, l.carries name = false) ∧
    q.reindexed.labelPlace? name = q.labelPlace? name ∧
    ∀ place line, ((q.insert place line).delete (min place q.size)).2.labelPlace? name =
      q.labelPlace? name := by
  intro q
  have hq : q.Indexed := indexed_editAll h.indexed edits
  refine ⟨hq.labelPlace?_eq_some name, hq.labelPlace?_eq_none name, ?_, ?_, ?_⟩
  · rw [hasLabel_eq_false, hq.labelPlace?_eq_none]
  · exact hq.labelPlace?_congr (indexed_reindexed q) rfl name
  · intro place line
    exact hq.labelPlace?_congr ((hq.insert place line).delete _) (lines_delete_insert q place line)
      name

/-- A second label `BOTTOM` that is put before the first one takes over, and it
stays the one that is found while lines above it come and go. -/
theorem a_duplicate_takes_over :
    let p := ofStatements [.remark "", .label (.ofString "bottom")]
    let edits := [.insert 1 ⟨0, .label (.ofString "BOTTOM")⟩, .insert 0 ⟨0, .remark ""⟩, .delete 1]
    p.New ∧ (p.editAll edits).labelPlace? (.ofString "Bottom") = some 1 := by
  intro p edits
  have hp : p.New := .ofStatements _
  refine ⟨hp, ((labels_lead_to_their_first_line hp edits _).1 1).2 ⟨⟨_, rfl, rfl⟩, ?_⟩⟩
  intro j l hj hl
  have hzero : j = 0 := by omega
  subst hzero
  cases hl
  rfl

end Program

end LineBasic
