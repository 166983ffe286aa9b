-- The index of labels never leads past the end of its program, however the
-- program was made.
import LineBasic.Program.Store

namespace LineBasic

namespace Program

/-- A program as it can be made: of lines, and by edits. -/
inductive Made : Program → Prop where
  | ofLines (lines : List Line) : Made (ofLines lines)
  | insert {p : Program} (h : Made p) (place : Nat) (line : Line) : Made (p.insert place line)
  | delete {p : Program} (h : Made p) (place : Nat) : Made (p.delete place).2
  | replace {p : Program} (h : Made p) (place : Nat) (line : Line) : Made (p.replace place line).2

/-- No label leads past the end of a program. -/
def LabelsWithin (labels : Table Name Nat) (size : Nat) : Prop :=
  ∀ key target, labels.get? key = some target → target ≤ size

theorem LabelsWithin.insert {labels : Table Name Nat} {size place : Nat} (key : Name)
    (h : LabelsWithin labels size) (hp : place ≤ size) :
    LabelsWithin (labels.insert key place) size := by
  intro other target ht
  by_cases hk : key = other
  · subst hk
    rw [Table.get?_insert_self] at ht
    cases ht
    exact hp
  · rw [Table.get?_insert_ne _ hk] at ht
    exact h other target ht

theorem LabelsWithin.mapValues {labels : Table Name Nat} {size size' : Nat} {f : Nat → Nat}
    (h : LabelsWithin labels size) (hf : ∀ a, a ≤ size → f a ≤ size') :
    LabelsWithin (labels.mapValues f) size' := by
  intro key target ht
  rw [Table.get?_mapValues] at ht
  obtain ⟨a, ha, rfl⟩ := Option.map_eq_some_iff.1 ht
  exact hf a (h key a ha)

theorem labelsWithin_indexFrom {labels : Table Name Nat} {place size : Nat} (lines : List Line)
    (h : LabelsWithin labels size) (hs : place + lines.length ≤ size) :
    LabelsWithin (indexFrom labels place lines) size := by
  induction lines generalizing labels place with
  | nil => exact h
  | cons l rest ih =>
    rw [List.length_cons] at hs
    rw [indexFrom]
    split
    · refine ih ?_ (by omega)
      unfold Table.insertNew
      split
      · exact h
      · exact h.insert _ (by omega)
    · exact ih h (by omega)

theorem labelsWithin_reindexed (p : Program) : LabelsWithin p.reindexed.labels p.reindexed.size :=
  labelsWithin_indexFrom p.lines (fun key target h => by cases h) (by simp [size, reindexed])

theorem labelsWithin_insert {p : Program} (h : LabelsWithin p.labels p.size) (place : Nat)
    (line : Line) : LabelsWithin (p.insert place line).labels (p.insert place line).size := by
  have hsize : (p.insert place line).size = p.size + 1 := by
    simp only [insert, size, List.length_append, List.length_take, List.length_cons,
      List.length_drop]
    omega
  have hshift : LabelsWithin
      (p.labels.mapValues fun a => if min place p.size ≤ a then a + 1 else a) (p.size + 1) :=
    h.mapValues fun a ha => by split <;> omega
  have hplace : min place p.size ≤ p.size + 1 := by omega
  rw [hsize]
  unfold insert
  dsimp only
  split
  · exact hshift
  · split
    · split
      · exact hshift
      · exact hshift.insert _ hplace
    · exact hshift.insert _ hplace

theorem labelsWithin_delete {p : Program} (h : LabelsWithin p.labels p.size) (place : Nat) :
    LabelsWithin (p.delete place).2.labels (p.delete place).2.size := by
  unfold delete
  split
  · exact h
  · rename_i line hl
    have hlt : place < p.lines.length := (List.getElem?_eq_some_iff.1 hl).1
    dsimp only
    split
    · exact labelsWithin_reindexed _
    · refine h.mapValues fun a ha => ?_
      simp only [size, List.length_eraseIdx, hlt, if_true] at ha ⊢
      split <;> omega

theorem labelsWithin_replace {p : Program} (h : LabelsWithin p.labels p.size) (place : Nat)
    (line : Line) :
    LabelsWithin (p.replace place line).2.labels (p.replace place line).2.size := by
  unfold replace
  split
  · exact h
  · dsimp only
    split
    · exact labelsWithin_reindexed _
    · simpa [size] using h

theorem Made.labelsWithin {p : Program} (h : p.Made) : LabelsWithin p.labels p.size := by
  induction h with
  | ofLines lines => exact labelsWithin_reindexed _
  | insert _ place line ih => exact labelsWithin_insert ih place line
  | delete _ place ih => exact labelsWithin_delete ih place
  | replace _ place line ih => exact labelsWithin_replace ih place line

end Program

end LineBasic
