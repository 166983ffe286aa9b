-- The key of a name has all that the program reads off a name: whether it is
-- an array, its number of axes, and the type of what it stores. Capitals change
-- letters only, and none of these is told by a letter.
import LineBasic.Kind

namespace LineBasic

/-! ## Capitals -/

/-- A character that no letter turns into and that is no letter. -/
def isMark (c : Char) : Bool := c ∈ ['[', ']', ',', '%', '#', '$', '&']

theorem toUpper_eq_or (c : Char) :
    c.toUpper = c ∨ 97 ≤ c.toNat ∧ c.toNat ≤ 122 ∧ c.toUpper.toNat = c.toNat - 32 := by
  unfold Char.toUpper
  split
  · rename_i h
    right
    have hlow : 97 ≤ c.val.toNat := h.1
    have hhigh : c.val.toNat ≤ 122 := h.2
    refine ⟨hlow, hhigh, ?_⟩
    change (c.val + ('A'.val - 'a'.val)).toNat = c.val.toNat - 32
    rw [UInt32.toNat_add]
    have hstep : ('A'.val - 'a'.val : UInt32).toNat = 4294967264 := rfl
    rw [hstep]
    omega
  · exact Or.inl rfl

theorem toUpper_toUpper (c : Char) : c.toUpper.toUpper = c.toUpper := by
  rcases toUpper_eq_or c with h | ⟨hlow, hhigh, hup⟩
  · rw [h, h]
  · rcases toUpper_eq_or c.toUpper with h | ⟨hlow', _, _⟩
    · exact h
    · omega

/-- Only a mark becomes that mark. -/
theorem toUpper_eq_iff {c d : Char} (hd : isMark d = true) : c.toUpper = d ↔ c = d := by
  have hnat : d.toNat < 65 ∨ 90 < d.toNat ∧ d.toNat < 97 := by
    simp only [isMark, List.mem_cons, List.not_mem_nil, or_false, decide_eq_true_eq] at hd
    rcases hd with rfl | rfl | rfl | rfl | rfl | rfl | rfl <;> decide
  rcases toUpper_eq_or c with h | ⟨hlow, hhigh, hup⟩
  · rw [h]
  · constructor
    · rintro rfl
      omega
    · rintro rfl
      omega

theorem Sigil.ofChar_toUpper (c : Char) : Sigil.ofChar c.toUpper = Sigil.ofChar c := by
  have hmark : ∀ d, isMark d = true → (c.toUpper = d ↔ c = d) := fun d hd => toUpper_eq_iff hd
  have h1 := hmark '%' rfl
  have h2 := hmark '#' rfl
  have h3 := hmark '$' rfl
  have h4 := hmark '&' rfl
  unfold Sigil.ofChar
  split <;> simp_all

namespace Name

@[simp] theorem key_key (n : Name) : n.key.key = n.key := by
  refine congrArg Name.mk ?_
  rw [key, List.map_map]
  exact List.map_congr_left fun c _ => toUpper_toUpper c

@[simp] theorem isArray_key (n : Name) : n.key.isArray = n.isArray := by
  have hclose : ∀ o : Option Char, Option.map Char.toUpper o = some ']' ↔ o = some ']' := by
    intro o
    cases o with
    | none => simp
    | some c => simpa using toUpper_eq_iff (c := c) (d := ']') rfl
  have hopen : ∀ c : Char, ('[' == c.toUpper) = ('[' == c) := by
    intro c
    have h := toUpper_eq_iff (c := c) (d := '[') rfl
    rw [Bool.eq_iff_iff, beq_iff_eq, beq_iff_eq, eq_comm, h, eq_comm]
  have hany : (n.chars.map Char.toUpper).contains '[' = n.chars.contains '[' := by
    rw [List.contains_map, List.contains_eq_any_beq]
    simp only [hopen]
  simp only [isArray, key, List.getLast?_map, hclose, hany]

theorem cutAtLastBracket_map (cs : List Char) :
    cutAtLastBracket (cs.map Char.toUpper) =
      (cutAtLastBracket cs).map fun c => (c.1.map Char.toUpper, c.2.map Char.toUpper) := by
  induction cs with
  | nil => rfl
  | cons c cs ih =>
    rw [List.map_cons, cutAtLastBracket, cutAtLastBracket, ih]
    cases cutAtLastBracket cs with
    | some cut => rfl
    | none =>
      by_cases hc : c = '['
      · subst hc
        rfl
      · have hup : c.toUpper ≠ '[' := fun h => hc ((toUpper_eq_iff rfl).1 h)
        simp [hc, hup]

theorem base_key (n : Name) : n.key.base = n.base.key := by
  unfold base
  rw [isArray_key]
  split
  · have hcut := cutAtLastBracket_map n.chars
    simp only [key] at hcut ⊢
    rw [hcut]
    cases cutAtLastBracket n.chars <;> rfl
  · rfl

@[simp] theorem sigil_key (n : Name) : n.key.sigil = n.sigil := by
  unfold sigil
  rw [base_key]
  simp only [key, List.getLast?_map]
  cases n.base.chars.getLast? with
  | none => rfl
  | some c => exact Sigil.ofChar_toUpper c

@[simp] theorem ofName_key (n : Name) : Kind.ofName n.key = Kind.ofName n := by
  simp [Kind.ofName]

/-- The suffix of an array name has no letters. -/
@[simp] theorem key_ofArray (n : Name) (rank : Nat) : (n.ofArray rank).key = n.key.ofArray rank := by
  unfold ofArray
  rw [isArray_key]
  split
  · rfl
  · simp [key, List.map_append, List.map_replicate]

/-! ## Names of arrays -/

theorem isArray_ofArray (n : Name) (rank : Nat) : (n.ofArray rank).isArray = true := by
  unfold ofArray
  split
  · assumption
  · simp [isArray, List.getLast?_append, List.getLast?_cons]

/-- An array name is its own name as an array. -/
theorem ofArray_ofArray (n : Name) (rank rank' : Nat) :
    (n.ofArray rank).ofArray rank' = n.ofArray rank := by
  rw [ofArray, if_pos (n.isArray_ofArray rank)]

theorem cutAtLastBracket_isSome {cs : List Char} (h : '[' ∈ cs) :
    (cutAtLastBracket cs).isSome = true := by
  induction cs with
  | nil => cases h
  | cons c cs ih =>
    rw [cutAtLastBracket]
    split
    · rfl
    · rename_i hnone
      have hc : c = '[' := by
        rcases List.mem_cons.1 h with rfl | hmem
        · rfl
        · rw [hnone] at ih
          cases ih hmem
      rw [if_pos hc]
      rfl

/-- Array names are those with a rank. -/
theorem isArray_iff_rank (n : Name) : n.isArray = true ↔ n.rank ≠ 0 := by
  unfold rank
  split
  · rename_i harray
    have hopen : '[' ∈ n.chars := by
      simp only [isArray, Bool.and_eq_true] at harray
      exact List.contains_iff_mem.1 harray.2
    obtain ⟨cut, hcut⟩ := Option.isSome_iff_exists.1 (cutAtLastBracket_isSome hopen)
    simp [harray, hcut]
  · rename_i hscalar
    simp [hscalar]

/-! ## Names of one key -/

theorem alike_iff {a b : Name} : a.alike b = true ↔ a.key = b.key := by
  simp [alike]

@[simp] theorem alike_key (a b : Name) : a.key.alike b.key = a.alike b := by
  rw [Bool.eq_iff_iff, alike_iff, alike_iff, key_key, key_key]

end Name

end LineBasic
