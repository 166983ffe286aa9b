-- What the functions of the language return. A function returns a value for some arguments if
-- every call of it does, whatever there is to see, and no call leaves anything behind. The
-- functions that cut texts count characters, from one, and take any numbers for the counts.
import LineBasic.Evaluation

namespace LineBasic

/-- Every call of a function with these arguments comes to the value and leaves nothing behind. -/
def Returns (word : String) (args : List Value) (v : Value) : Prop :=
  ∀ (view : View) (t : Trail), Eval.call (Name.ofString word) args view t = .ok v t

variable {word s : String} {args : List Value} {b : Builtin} {v w : Value} {n m : Int64}

theorem Returns.unique (h : Returns word args v) (h' : Returns word args w) : v = w := by
  have hsame := (h default default).symm.trans (h' default default)
  cases hsame
  rfl

/-- To return a text is to return this text and no other. -/
theorem Returns.string_iff {r : String} (h : Returns word args (.string s)) :
    Returns word args (.string r) ↔ s = r := by
  constructor
  · intro h'
    cases h.unique h'
    rfl
  · rintro rfl
    exact h

/-- A function returns what it computes, if its name leads to it. -/
theorem returns_of_compute
    (hname : ∀ view t, Eval.call (Name.ofString word) args view t =
      Eval.ofExcept (b.compute view args) view t)
    (h : ∀ view, b.compute view args = .ok v) : Returns word args v := by
  intro view t
  rw [hname, h]
  rfl

/-! ## Counts -/

/-- An INTEGER can count the characters; no text in a memory has more. -/
def Text.Countable (s : String) : Prop := s.length ≤ Real.greatest.toNat

instance (s : String) : Decidable (Text.Countable s) := Nat.decLe _ _

theorem Integer.toInt_ofNat {k : Nat} (h : k ≤ Real.greatest.toNat) :
    (Int64.ofNat k).toInt = k :=
  Int64.toInt_ofNat_of_lt (Nat.lt_of_le_of_lt h (by decide))

theorem Value.toCount_of_toInteger (h : v.toInteger = .ok n) (hn : 0 ≤ n) :
    v.toCount = .ok n.toInt.toNat := by
  have hnot : ¬ n < 0 := by
    rw [Int64.lt_iff_toInt_lt]
    rw [Int64.le_iff_toInt_le] at hn
    omega
  unfold Value.toCount
  rw [h]
  exact if_neg hnot

/-! ## Parts of a text -/

theorem returns_len (s : String) : Returns "LEN" [.string s] (.integer (Int64.ofNat s.length)) :=
  returns_of_compute (b := .len) (fun _ _ => rfl) fun _ => rfl

theorem returns_left (h : v.toInteger = .ok n) (hn : 0 ≤ n) :
    Returns "LEFT$" [.string s, v] (.string (Excerpt.left s n.toInt.toNat)) := by
  apply returns_of_compute (b := .left) (fun _ _ => rfl)
  intro view
  change (v.toCount >>= fun k => .ok (.string (Excerpt.left s k)) : Except Error Value) = _
  rw [Value.toCount_of_toInteger h hn]
  rfl

theorem returns_right (h : v.toInteger = .ok n) (hn : 0 ≤ n) :
    Returns "RIGHT$" [.string s, v] (.string (Excerpt.right s n.toInt.toNat)) := by
  apply returns_of_compute (b := .right) (fun _ _ => rfl)
  intro view
  change (v.toCount >>= fun k => .ok (.string (Excerpt.right s k)) : Except Error Value) = _
  rw [Value.toCount_of_toInteger h hn]
  rfl

theorem not_lt_one (hn : 1 ≤ n) : ¬ n.toInt.toNat < 1 := by
  have hone : (1 : Int64).toInt = 1 := rfl
  rw [Int64.le_iff_toInt_le, hone] at hn
  omega

theorem returns_mid (h : v.toInteger = .ok n) (hn : 1 ≤ n) :
    Returns "MID$" [.string s, v] (.string (Excerpt.mid s n.toInt.toNat none)) := by
  apply returns_of_compute (b := .mid) (fun _ _ => rfl)
  intro view
  have hzero : 0 ≤ n := Int64.le_trans (by decide) hn
  change (v.toCount >>= fun k => if k < 1 then .error Error.sliceStart
    else .ok (.string (Excerpt.mid s k none)) : Except Error Value) = _
  rw [Value.toCount_of_toInteger h hzero]
  exact if_neg (not_lt_one hn)

theorem returns_mid_length (h : v.toInteger = .ok n) (hn : 1 ≤ n) (hw : w.toInteger = .ok m)
    (hm : 0 ≤ m) :
    Returns "MID$" [.string s, v, w] (.string (Excerpt.mid s n.toInt.toNat m.toInt.toNat)) := by
  apply returns_of_compute (b := .mid) (fun _ _ => rfl)
  intro view
  have hzero : 0 ≤ n := Int64.le_trans (by decide) hn
  change (v.toCount >>= fun k => if k < 1 then .error Error.sliceStart
    else some <$> w.toCount >>= fun l => .ok (.string (Excerpt.mid s k l)) :
      Except Error Value) = _
  rw [Value.toCount_of_toInteger h hzero, Value.toCount_of_toInteger hw hm]
  exact if_neg (not_lt_one hn)

theorem returns_instr (text needle : String) (h : v.toInteger = .ok n) (hn : 0 ≤ n) :
    Returns "INSTR" [.string text, .string needle, v]
      (.integer (Int64.ofNat (Excerpt.instr text needle n.toInt.toNat))) := by
  apply returns_of_compute (b := .instr) (fun _ _ => rfl)
  intro view
  change (v.toCount >>= fun k => .ok (.integer (Int64.ofNat (Excerpt.instr text needle k))) :
    Except Error Value) = _
  rw [Value.toCount_of_toInteger h hn]
  rfl

end LineBasic
