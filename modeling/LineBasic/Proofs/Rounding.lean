-- Whole numbers at 53 bits, and the sum and the difference of two INTEGERs. Rounding
-- keeps the order of numbers and is off by half a unit at most. From these two facts
-- a sum that leaves the range stops at its end, on either side: what the rounded
-- operands lose is never enough to bring the sum back into the range.
import LineBasic.Value.Operator
import Mathlib.Tactic.Ring

namespace LineBasic

namespace Real

/-! ## Natural numbers -/

/-- The distance of two neighbours among the numbers of 53 bits around `n`. -/
def unit (n : Nat) : Nat := 2 ^ (n.log2 - fractionBits)

/-- A multiple of a unit next to `n`, a tie to the even one. -/
def nearestMultiple (unit n : Nat) : Nat :=
  if 2 * (n % unit) < unit then n / unit
  else if unit < 2 * (n % unit) then n / unit + 1
  else n / unit + n / unit % 2

theorem unit_pos (n : Nat) : 0 < unit n := Nat.two_pow_pos _

theorem nearestNat_eq (n : Nat) : nearestNat n = nearestMultiple (unit n) n * unit n := by
  unfold nearestNat nearestMultiple unit
  simp only [Nat.one_shiftLeft]
  split
  · rfl
  · split <;> rfl

theorem nearestMultiple_bounds (unit n : Nat) :
    n / unit ≤ nearestMultiple unit n ∧ nearestMultiple unit n ≤ n / unit + 1 := by
  unfold nearestMultiple
  split
  · omega
  · split <;> omega

theorem nearestMultiple_mono {unit m n : Nat} (h : m ≤ n) :
    nearestMultiple unit m ≤ nearestMultiple unit n := by
  have hm := nearestMultiple_bounds unit m
  have hn := nearestMultiple_bounds unit n
  rcases Nat.lt_or_eq_of_le (Nat.div_le_div_right (c := unit) h) with hlt | heq
  · omega
  · -- Between the same two multiples the one that is nearer to the upper is not smaller.
    have hmod : m % unit ≤ n % unit := by
      have h1 := Nat.div_add_mod m unit
      have h2 := Nat.div_add_mod n unit
      rw [← heq] at h2
      omega
    unfold nearestMultiple
    rw [heq]
    split
    · split
      · exact Nat.le_refl _
      · split <;> omega
    · split
      · rw [if_neg (by omega), if_pos (by omega)]
      · split
        · omega
        · split
          · omega
          · exact Nat.le_refl _

/-- Rounding is off by half a unit at most. -/
theorem nearestMultiple_error {unit : Nat} (n : Nat) (h : 0 < unit) :
    2 * n ≤ 2 * (nearestMultiple unit n * unit) + unit ∧
      2 * (nearestMultiple unit n * unit) ≤ 2 * n + unit := by
  have hdiv := Nat.div_add_mod n unit
  have hmod := Nat.mod_lt n h
  have hmul : unit * (n / unit) = n / unit * unit := Nat.mul_comm _ _
  unfold nearestMultiple
  split
  · omega
  · split
    · rw [Nat.add_mul, Nat.one_mul]
      omega
    · rcases Nat.mod_two_eq_zero_or_one (n / unit) with heven | hodd
      · rw [heven, Nat.add_zero]
        omega
      · rw [hodd, Nat.add_mul, Nat.one_mul]
        omega

theorem nearestNat_error (n : Nat) :
    2 * n ≤ 2 * nearestNat n + unit n ∧ 2 * nearestNat n ≤ 2 * n + unit n := by
  rw [nearestNat_eq]
  exact nearestMultiple_error n (unit_pos n)

theorem unit_eq_one {n : Nat} (h : n < 2 ^ 53) : unit n = 1 := by
  unfold unit
  have hlog : n.log2 < 53 := by
    rcases Nat.eq_zero_or_pos n with rfl | hn
    · simp
    · exact (Nat.log2_lt (by omega)).2 h
  rw [show n.log2 - fractionBits = 0 by unfold fractionBits; omega, Nat.pow_zero]

/-- A number of 53 bits is its own rounding. -/
theorem nearestNat_small {n : Nat} (h : n < 2 ^ 53) : nearestNat n = n := by
  have herror := nearestNat_error n
  rw [unit_eq_one h] at herror
  omega

/-- Rounding stays between the powers of two around a number. -/
theorem nearestNat_between {n : Nat} (h : n ≠ 0) :
    2 ^ n.log2 ≤ nearestNat n ∧ nearestNat n ≤ 2 ^ (n.log2 + 1) := by
  have hlow := Nat.log2_self_le h
  have hhigh := Nat.lt_log2_self (n := n)
  rcases Nat.lt_or_ge n.log2 52 with hsmall | hlarge
  · have hlt : n < 2 ^ 53 :=
      Nat.lt_of_lt_of_le hhigh (Nat.pow_le_pow_right (by omega) (by omega))
    rw [nearestNat_small hlt]
    omega
  · obtain ⟨k, hk⟩ := Nat.exists_eq_add_of_le hlarge
    have hunit : unit n = 2 ^ k := by
      unfold unit fractionBits
      rw [hk, Nat.add_sub_cancel_left]
    have hpos : 0 < 2 ^ k := Nat.two_pow_pos k
    have hbounds := nearestMultiple_bounds (2 ^ k) n
    rw [hk, Nat.pow_add] at hlow
    rw [hk, Nat.add_right_comm, Nat.pow_add] at hhigh
    have hdiv : 2 ^ 52 ≤ n / 2 ^ k := (Nat.le_div_iff_mul_le hpos).2 hlow
    have hdiv' : n / 2 ^ k < 2 ^ 53 := (Nat.div_lt_iff_lt_mul hpos).2 hhigh
    rw [nearestNat_eq, hunit, hk, Nat.pow_add, Nat.add_right_comm, Nat.pow_add]
    exact ⟨Nat.mul_le_mul_right _ (by omega), Nat.mul_le_mul_right _ (by omega)⟩

theorem nearestNat_mono {m n : Nat} (h : m ≤ n) : nearestNat m ≤ nearestNat n := by
  rcases Nat.eq_zero_or_pos m with rfl | hm
  · rw [nearestNat_small (by omega)]
    exact Nat.zero_le _
  · have hlog : m.log2 ≤ n.log2 :=
      (Nat.le_log2 (by omega)).2 (Nat.le_trans (Nat.log2_self_le (by omega)) h)
    rcases Nat.lt_or_eq_of_le hlog with hlt | heq
    · calc nearestNat m ≤ 2 ^ (m.log2 + 1) := (nearestNat_between (by omega)).2
        _ ≤ 2 ^ n.log2 := Nat.pow_le_pow_right (by omega) hlt
        _ ≤ nearestNat n := (nearestNat_between (by omega)).1
    · have hunit : unit m = unit n := by unfold unit; rw [heq]
      rw [nearestNat_eq, nearestNat_eq, hunit]
      exact Nat.mul_le_mul_right _ (nearestMultiple_mono h)

/-! ## Whole numbers -/

theorem nearest_neg (n : Int) : nearest (-n) = -nearest n := by
  unfold nearest
  rw [Int.natAbs_neg]
  rcases Int.lt_trichotomy n 0 with h | rfl | h
  · rw [if_neg (by omega), if_pos h, Int.neg_neg]
  · simp [nearestNat_small]
  · rw [if_pos (by omega), if_neg (by omega)]

theorem nearest_natCast (n : Nat) : nearest n = nearestNat n := by
  unfold nearest
  rw [if_neg (by omega), Int.natAbs_natCast]

/-- A whole number of 53 bits is exact. -/
theorem nearest_small {n : Int} (h : n.natAbs < 2 ^ 53) : nearest n = n := by
  unfold nearest
  rw [nearestNat_small h]
  split <;> omega

/-- Rounding keeps the order of numbers. -/
theorem nearest_mono {m n : Int} (h : m ≤ n) : nearest m ≤ nearest n := by
  unfold nearest
  split
  · split
    · have := nearestNat_mono (m := n.natAbs) (n := m.natAbs) (by omega)
      omega
    · omega
  · rw [if_neg (by omega)]
    have := nearestNat_mono (m := m.natAbs) (n := n.natAbs) (by omega)
    omega

/-! ## Sums past the range -/

/-- Half the range is the unit at which the larger operand of a sum is rounded. -/
theorem unit_dvd {n : Nat} (h : n < 2 ^ 62) : unit n ∣ 512 := by
  unfold unit fractionBits
  have hlog : n.log2 < 62 := by
    rcases Nat.eq_zero_or_pos n with rfl | hn
    · simp
    · exact (Nat.log2_lt (by omega)).2 h
  exact Nat.pow_dvd_pow 2 (show n.log2 - 52 ≤ 9 by omega)

theorem unit_large {n : Nat} (h : 2 ^ 62 ≤ n) (h' : n < 2 ^ 63) : unit n = 1024 := by
  unfold unit fractionBits
  have hlog : n.log2 = 62 := by
    rw [Nat.log2_eq_iff (by omega)]
    exact ⟨h, h'⟩
  rw [hlog]
  rfl

/-- One operand is large and the other is not, so the other is rounded at a unit
that divides half of the first one's. -/
theorem le_nearestNat_add {m n : Nat} (hm : 2 ^ 62 ≤ m) (hm' : m < 2 ^ 63) (hn : n < 2 ^ 62)
    (h : 2 ^ 63 ≤ m + n) : 2 ^ 63 - 512 ≤ nearestNat m + nearestNat n := by
  have hlarge := (nearestNat_error m).1
  have hsmall := (nearestNat_error n).1
  rw [unit_large hm hm'] at hlarge
  obtain ⟨c, hc⟩ := unit_dvd hn
  have hpos := unit_pos n
  rw [nearestNat_eq m, unit_large hm hm'] at hlarge ⊢
  rw [nearestNat_eq n] at hsmall ⊢
  generalize nearestMultiple 1024 m = q at hlarge ⊢
  generalize nearestMultiple (unit n) n = r at hsmall ⊢
  generalize unit n = u at hc hpos hsmall ⊢
  -- Both sides are multiples of `u`, and they differ by less than `u`.
  by_contra hlt
  have hstep : 2 * c * q + r + 1 ≤ (2 ^ 54 - 1) * c := by
    by_contra hge
    have hmul := Nat.mul_le_mul_left u (show (2 ^ 54 - 1) * c ≤ 2 * c * q + r by omega)
    have h1 : u * ((2 ^ 54 - 1) * c) = (2 ^ 54 - 1) * (u * c) := by ring
    have h2 : u * (2 * c * q + r) = 2 * (u * c) * q + r * u := by ring
    rw [h1, h2, ← hc] at hmul
    omega
  have hmul := Nat.mul_le_mul_left u hstep
  have h1 : u * ((2 ^ 54 - 1) * c) = (2 ^ 54 - 1) * (u * c) := by ring
  have h2 : u * (2 * c * q + r + 1) = 2 * (u * c) * q + r * u + u := by ring
  rw [h1, h2, ← hc] at hmul
  omega

/-- The rounded sum of two INTEGERs is past the range where the exact sum is. -/
theorem nearestNat_overflow {m n : Nat} (hm : m ≤ 2 ^ 63) (hn : n ≤ 2 ^ 63)
    (h : 2 ^ 63 ≤ m + n) : 2 ^ 63 ≤ nearestNat (nearestNat m + nearestNat n) := by
  have hhalf : nearestNat (2 ^ 62) = 2 ^ 62 := by decide +kernel
  have hend : nearestNat (2 ^ 63) = 2 ^ 63 := by decide +kernel
  have htie : nearestNat (2 ^ 63 - 512) = 2 ^ 63 := by decide +kernel
  have hround : ∀ {k}, 2 ^ 63 - 512 ≤ k → 2 ^ 63 ≤ nearestNat k := by
    intro k hk
    rw [← htie]
    exact nearestNat_mono hk
  refine hround ?_
  rcases Nat.eq_or_lt_of_le hm with rfl | hm
  · omega
  rcases Nat.eq_or_lt_of_le hn with rfl | hn
  · omega
  rcases Nat.lt_or_ge m (2 ^ 62) with hms | hml
  · rw [Nat.add_comm]
    exact le_nearestNat_add (by omega) hn hms (by omega)
  · rcases Nat.lt_or_ge n (2 ^ 62) with hns | hnl
    · exact le_nearestNat_add hml hm hns h
    · have h1 := nearestNat_mono hml
      have h2 := nearestNat_mono hnl
      omega

end Real

namespace Integer

theorem toInt_bounds (n : Int64) : Real.least ≤ n.toInt ∧ n.toInt ≤ Real.greatest := by
  have h1 := n.le_toInt
  have h2 := n.toInt_lt
  unfold Real.least Real.greatest
  omega

theorem toInt_saturate_of_fits {n : Int} (h : Real.least ≤ n) (h' : n ≤ Real.greatest) :
    (Real.saturate n).toInt = n := by
  unfold Real.saturate
  rw [if_neg (by omega), if_neg (by omega)]
  unfold Real.least at h
  unfold Real.greatest at h'
  exact Int64.toInt_ofInt_of_le (by omega) (by omega)

theorem toInt_saturate (n : Int) :
    (Real.saturate n).toInt = max Real.least (min n Real.greatest) := by
  by_cases hlow : n < Real.least
  · unfold Real.saturate
    rw [if_pos hlow]
    unfold Real.least Real.greatest at *
    rw [show Int64.minValue.toInt = -0x8000000000000000 by decide]
    omega
  · by_cases hhigh : Real.greatest < n
    · unfold Real.saturate
      rw [if_neg hlow, if_pos hhigh]
      unfold Real.least Real.greatest at *
      rw [show Int64.maxValue.toInt = 0x7fffffffffffffff by decide]
      omega
    · rw [toInt_saturate_of_fits (by omega) (by omega)]
      unfold Real.least Real.greatest at *
      omega

/-- The rounded sum of two numbers of the size of an INTEGER is past the range on the side
where the exact sum is. -/
theorem nearest_overflow {m n : Int} (hm : m ≤ 2 ^ 63) (hn : n ≤ 2 ^ 63)
    (h : Real.greatest < m + n) :
    Real.greatest < Real.nearest (Real.nearest m + Real.nearest n) := by
  unfold Real.greatest at *
  obtain ⟨k, rfl⟩ := Int.eq_ofNat_of_zero_le (show 0 ≤ m by omega)
  obtain ⟨l, rfl⟩ := Int.eq_ofNat_of_zero_le (show 0 ≤ n by omega)
  have hsum := Real.nearestNat_overflow (m := k) (n := l) (by omega) (by omega) (by omega)
  rw [Real.nearest_natCast, Real.nearest_natCast, ← Int.natCast_add, Real.nearest_natCast]
  omega

theorem nearest_underflow {m n : Int} (hm : -2 ^ 63 ≤ m) (hn : -2 ^ 63 ≤ n)
    (h : m + n < Real.least) :
    Real.nearest (Real.nearest m + Real.nearest n) ≤ Real.least := by
  unfold Real.least at *
  have hsum := nearest_overflow (m := -m) (n := -n) (by omega) (by omega)
    (by unfold Real.greatest; omega)
  rw [Real.nearest_neg, Real.nearest_neg, ← Int.neg_add, Real.nearest_neg] at hsum
  unfold Real.greatest at hsum
  omega

/-- A result stops at the ends of the range if rounding leaves it on the side of the range on
which it is. -/
theorem toInt_degrade {exact rounded : Int}
    (hhigh : Real.greatest < exact → Real.greatest < rounded)
    (hlow : exact < Real.least → rounded ≤ Real.least) :
    (degrade exact rounded).toInt = max Real.least (min exact Real.greatest) := by
  unfold degrade
  split
  · rename_i h
    simp only [Real.fits, Bool.and_eq_true, decide_eq_true_eq] at h
    have hexact := toInt_saturate_of_fits h.1 h.2
    unfold Real.saturate at hexact
    rw [if_neg (by omega), if_neg (by omega)] at hexact
    rw [hexact]
    omega
  · rename_i h
    simp only [Real.fits, Bool.and_eq_true, decide_eq_true_eq] at h
    rw [toInt_saturate]
    unfold Real.least Real.greatest at *
    omega

/-- A sum of INTEGERs is exact within the range and stops at its ends. -/
theorem toInt_add (l r : Int64) :
    (add l r).toInt = max Real.least (min (l.toInt + r.toInt) Real.greatest) := by
  have hl := toInt_bounds l
  have hr := toInt_bounds r
  unfold Real.least Real.greatest at hl hr
  exact toInt_degrade (nearest_overflow (by omega) (by omega))
    (nearest_underflow (by omega) (by omega))

/-- So is a difference. What is taken away is rounded like what is added. -/
theorem toInt_sub (l r : Int64) :
    (sub l r).toInt = max Real.least (min (l.toInt - r.toInt) Real.greatest) := by
  have hl := toInt_bounds l
  have hr := toInt_bounds r
  unfold Real.least Real.greatest at hl hr
  unfold sub
  rw [Int.sub_eq_add_neg, Int.sub_eq_add_neg, ← Real.nearest_neg]
  exact toInt_degrade (nearest_overflow (by omega) (by omega))
    (nearest_underflow (by omega) (by omega))

/-- The INTEGER for a whole number: that number if there is such an INTEGER, and otherwise the
end of the range on its side. -/
structure Clamps (n : Int) (i : Int64) : Prop where
  within : Real.least ≤ n → n ≤ Real.greatest → i.toInt = n
  above : Real.greatest < n → i = Int64.maxValue
  below : n < Real.least → i = Int64.minValue

theorem clamps_of_toInt {n : Int} {i : Int64}
    (h : i.toInt = max Real.least (min n Real.greatest)) : Clamps n i where
  within := by omega
  above hn := by
    rw [← Int64.toInt_inj, h, Int64.toInt_maxValue]
    unfold Real.least Real.greatest at *
    omega
  below hn := by
    rw [← Int64.toInt_inj, h, Int64.toInt_minValue]
    unfold Real.least Real.greatest at *
    omega

/-- The sum and the difference of two INTEGERs are INTEGERs, exact where the result fits and
at the end of the range where it does not, whatever the operands and the result lose when they
are rounded to REALs on the way. -/
theorem sums_and_differences_stop_at_the_ends (l r : Int64) :
    (∃ n, Value.sum (.integer l) (.integer r) = .ok (.integer n) ∧ Clamps (l.toInt + r.toInt) n) ∧
      ∃ n, Value.subtract (.integer l) (.integer r) = .ok (.integer n) ∧
        Clamps (l.toInt - r.toInt) n :=
  ⟨⟨add l r, rfl, clamps_of_toInt (toInt_add l r)⟩, sub l r, rfl, clamps_of_toInt (toInt_sub l r)⟩

/-! ## Sums of many steps -/

/-- `a` after `j` steps of `k`, stopped at the ends of the range. -/
def stepped (a k : Int64) (j : Nat) : Int64 := Real.saturate (a.toInt + j * k.toInt)

theorem toInt_stepped (a k : Int64) (j : Nat) :
    (stepped a k j).toInt = max Real.least (min (a.toInt + j * k.toInt) Real.greatest) :=
  toInt_saturate _

theorem stepped_zero (a k : Int64) : stepped a k 0 = a := by
  have ha := toInt_bounds a
  refine Int64.toInt_inj.1 ?_
  rw [toInt_stepped]
  omega

/-- One step more is one sum more. -/
theorem add_stepped (a k : Int64) (j : Nat) : add (stepped a k j) k = stepped a k (j + 1) := by
  have ha := toInt_bounds a
  refine Int64.toInt_inj.1 ?_
  rw [toInt_add, toInt_stepped, toInt_stepped, Int.natCast_succ, Int.add_mul, Int.one_mul]
  unfold Real.least Real.greatest at *
  -- All steps go one way, so once the end of the range is reached the sum stays there.
  rcases Int.le_total 0 k.toInt with hk | hk
  · have hj : 0 ≤ (j : Int) * k.toInt := Int.mul_nonneg (by omega) hk
    omega
  · have hj : (j : Int) * k.toInt ≤ 0 := Int.mul_nonpos_of_nonneg_of_nonpos (by omega) hk
    omega

end Integer

end LineBasic
