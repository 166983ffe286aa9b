-- A REAL that was made from an INTEGER is a number. No number is equal to a missing
-- one, so this is what makes such a REAL equal to itself. A REAL is packed into 64
-- bits, and none of the ways to get one from a whole number packs a missing number.
import LineBasic.Value.Number
import Mathlib

namespace LineBasic.Real

open Float.Model UnpackedFloat

/-! ## Packing -/

section Packing

variable {spec : Format}

theorem unpack_components_ne (s : Sign) {e : BitVec spec.exponentBits}
    {m : BitVec spec.mantissaBitsWithoutImplicit}
    (h : e ≠ -BitVec.ofNat spec.exponentBits 1 ∨ m = BitVec.ofNat spec.mantissaBitsWithoutImplicit 0) :
    UnpackedFloat.unpack spec (packComponents spec s e m) ≠ .notANumber := by
  unfold UnpackedFloat.unpack
  dsimp only
  rw [unpackExponent_packComponents]
  split
  · rename_i he
    rw [if_pos ((unpackMantissa_packComponents ..).trans (h.resolve_left fun hne => hne he))]
    simp
  · split
    · split <;> simp
    · simp

theorem ofNat_ne_neg_one {n : Nat} (h : n + 1 < 2 ^ spec.exponentBits) :
    BitVec.ofNat spec.exponentBits n ≠ -BitVec.ofNat spec.exponentBits 1 := by
  intro heq
  have hnat := congrArg BitVec.toNat heq
  rw [BitVec.neg_one_eq_allOnes, BitVec.toNat_allOnes, BitVec.toNat_ofNat,
    Nat.mod_eq_of_lt (by omega)] at hnat
  omega

/-- Packing rounds no number to a missing one. -/
theorem unpack_pack_ne {f : UnpackedFloat} (h : f ≠ .notANumber) :
    UnpackedFloat.unpack spec (UnpackedFloat.pack spec f) ≠ .notANumber := by
  have hzero : BitVec.ofNat spec.exponentBits 0 ≠ -BitVec.ofNat spec.exponentBits 1 :=
    ofNat_ne_neg_one (by simpa using Nat.one_lt_two_pow (Nat.pos_iff_ne_zero.1 spec.he))
  cases f with
  | notANumber => exact absurd rfl h
  | infinity s => exact unpack_components_ne s (Or.inr rfl)
  | zero s => exact unpack_components_ne s (Or.inr rfl)
  | finite s m e hm =>
    unfold UnpackedFloat.pack
    dsimp only
    split
    · exact unpack_components_ne s (Or.inr rfl)
    · split
      · exact unpack_components_ne s (Or.inl (ofNat_ne_neg_one (by omega)))
      · exact unpack_components_ne s (Or.inl hzero)

theorem roundWithAccuracy_ne (s : Sign) (m : Nat) (e : Int) (a : Accuracy) :
    roundWithAccuracy spec s m e a ≠ .notANumber := by
  unfold roundWithAccuracy
  dsimp only
  split <;> simp

theorem normalize_ne (m e : Int) (s : Sign) : UnpackedFloat.normalize spec m e s ≠ .notANumber := by
  unfold UnpackedFloat.normalize
  split
  · exact roundWithAccuracy_ne _ _ _ _
  · simp
  · exact roundWithAccuracy_ne _ _ _ _

theorem mul_finite_ne {f : UnpackedFloat} (h : f ≠ .notANumber) {s : Sign} {m : Nat} {e : Int}
    (hm : 0 < m) : UnpackedFloat.mul spec f (.finite s m e hm) ≠ .notANumber := by
  cases f with
  | notANumber => exact absurd rfl h
  | infinity | zero => simp [UnpackedFloat.mul]
  | finite => exact roundWithAccuracy_ne _ _ _ _

theorem ofScientific_ne (m : Nat) {e : Int} (h : 0 ≤ e) :
    UnpackedFloat.ofScientific spec m e ≠ .notANumber := by
  unfold UnpackedFloat.ofScientific
  split
  · simp
  · split
    · simp
    · split
      · simp
      · exact roundWithAccuracy_ne _ _ _ _

theorem neg_ne {f : UnpackedFloat} (h : f ≠ .notANumber) : UnpackedFloat.neg f ≠ .notANumber := by
  cases f with
  | notANumber => exact absurd rfl h
  | infinity | zero | finite => simp [UnpackedFloat.neg]

theorem beq_self {f : UnpackedFloat} (h : f ≠ .notANumber) : UnpackedFloat.beq f f = true :=
  (beq_iff_ne_notANumber_and_eq f f).2 ⟨h, h, Or.inl rfl⟩

end Packing

/-! ## Numbers that are there -/

/-- The number is there. -/
def Present (x : Float) : Prop := x.toModel.unpack ≠ .notANumber

theorem Present.beq {x : Float} (h : Present x) : (x == x) = true := beq_self h

theorem Present.neg {x : Float} (h : Present x) : Present x.neg := unpack_pack_ne (neg_ne h)

theorem unpack_one : ∃ s m e hm,
    (Float.ofBits 4607182418800017408).toModel.unpack = .finite s m e hm :=
  ⟨.positive, 2 ^ 52, -52, by decide, by rfl⟩

theorem present_ofNat (n : Nat) : Present (Float.ofNat n) := by
  change Present (Float.ofScientific n false 0)
  unfold Float.ofScientific
  split
  · obtain ⟨s, m, e, hm, hone⟩ := unpack_one
    have hfactor : Float.Model.unpack (Float.Model.ofUInt64 n.toUInt64) ≠ .notANumber :=
      unpack_pack_ne (normalize_ne _ _ _)
    have hmul := @mul_finite_ne Format.binary64 _ hfactor s m e hm
    rw [← hone] at hmul
    exact unpack_pack_ne hmul
  · exact @unpack_pack_ne Format.binary64 _ (ofScientific_ne n (Int.le_refl 0))

/-- An INTEGER as a REAL is a number, so it equals itself. -/
theorem ofInteger_beq (n : Int64) : (ofInteger n == ofInteger n) = true := by
  refine Present.beq ?_
  unfold ofInteger Float.ofInt
  split
  · exact present_ofNat _
  · exact (present_ofNat _).neg

end LineBasic.Real
