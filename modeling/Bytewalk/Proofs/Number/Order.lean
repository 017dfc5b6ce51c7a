import Mathlib
import Bytewalk.Number.Binary64

/-!
# The order of binary64 numbers

Strict comparison orders the binary64 numbers strictly, with both zeros in one place. What is not a
number stands outside: nothing is below it, and it is below nothing. Among the others, whatever lies
between two numbers is told apart from one of them.

- `Binary64.lt_irrefl` and `Binary64.lt_trans` hold of all bit patterns;
- `Binary64.lt_or_lt`: no number is level with two that are not level with each other;
- `Binary64.isNaN_ofInt32`: integers widen to numbers.
-/

namespace Bytewalk

open Float.Model (UnpackedFloat Format)
open Float.Model.UnpackedFloat (Sign)

/-! ## Ranks -/

/-- The place of an unpacked number: infinities outside, zeros in the middle, and between them by
exponent and mantissa. -/
def rank : UnpackedFloat → ℤ ×ₗ ℤ ×ₗ ℤ
  | .infinity .negative => toLex (-2, toLex (0, 0))
  | .finite .negative mantissa exponent _ => toLex (-1, toLex (-exponent, -mantissa))
  | .zero _ | .notANumber => toLex (0, toLex (0, 0))
  | .finite .positive mantissa exponent _ => toLex (1, toLex (exponent, mantissa))
  | .infinity .positive => toLex (2, toLex (0, 0))

/-- Exponents are compared first, and mantissas only where the exponents are the same. -/
theorem compare_then_eq_lt (e e' : ℤ) (m m' : ℕ) :
    (compare e e').then (compare m m') = .lt ↔ e < e' ∨ e = e' ∧ m < m' := by
  rw [Ordering.then_eq_lt, compare_lt_iff_lt, compare_lt_iff_lt, compare_eq_iff_eq]

/-- Comparison is that of the places. -/
theorem lt_iff_rank_lt (a b : UnpackedFloat) :
    a.lt b = true ↔ a ≠ .notANumber ∧ b ≠ .notANumber ∧ rank a < rank b := by
  rw [UnpackedFloat.lt, beq_iff_eq]
  -- Only two finite numbers of the same sign are not told apart by their constructors.
  rcases a with ⟨_ | _⟩ | _ | _ | ⟨_ | _, m, e, hm⟩ <;>
    rcases b with ⟨_ | _⟩ | _ | _ | ⟨_ | _, m', e', hm'⟩ <;>
    simp [UnpackedFloat.compare, rank, Prod.Lex.lt_iff]
  case infinity.negative.infinity.positive => rfl
  case finite.negative.finite.negative =>
    rw [Ordering.then_eq_gt, compare_gt_iff_gt, compare_gt_iff_gt, compare_eq_iff_eq]
  case finite.positive.finite.positive => exact compare_then_eq_lt e e' m m'

/-! ## Bit patterns -/

/-- Only a full exponent over a fraction that is not zero is unpacked to no number. -/
theorem unpack_eq_notANumber_iff (bits : BitVec Format.binary64.numBits) :
    UnpackedFloat.unpack .binary64 bits = .notANumber ↔
      UnpackedFloat.unpackExponent bits = -1#_ ∧ UnpackedFloat.unpackMantissa bits ≠ 0#_ := by
  rw [UnpackedFloat.unpack]
  dsimp only
  split
  next hexponent =>
    split
    next hmantissa => simp [hexponent, hmantissa]
    next hmantissa => simp [hexponent, hmantissa]
  next hexponent =>
    refine iff_of_false ?_ fun h => hexponent h.1
    split
    next => split <;> exact nofun
    next => exact nofun

/-- Packing turns nothing else into no number. -/
theorem unpack_pack_eq_notANumber_iff (u : UnpackedFloat) :
    UnpackedFloat.unpack .binary64 (UnpackedFloat.pack .binary64 u) = .notANumber ↔
      u = .notANumber := by
  rw [unpack_eq_notANumber_iff]
  fun_cases UnpackedFloat.pack Format.binary64 u with
  | case1 =>
    refine iff_of_true ?_ rfl
    rw [UnpackedFloat.packedNaN, UnpackedFloat.unpackExponent_packComponents,
      UnpackedFloat.unpackMantissa_packComponents]
    decide
  | case2 s =>
    refine iff_of_false ?_ nofun
    rw [UnpackedFloat.packedInfinity, UnpackedFloat.unpackMantissa_packComponents]
    exact fun h => h.2 rfl
  | case3 s =>
    refine iff_of_false ?_ nofun
    rw [UnpackedFloat.packedZero, UnpackedFloat.unpackMantissa_packComponents]
    exact fun h => h.2 rfl
  | case4 s m e hm biased hover =>
    refine iff_of_false ?_ nofun
    rw [UnpackedFloat.packedInfinity, UnpackedFloat.unpackMantissa_packComponents]
    exact fun h => h.2 rfl
  | case5 s m e hm bits biased hover hnormal =>
    -- The exponent is not full, since it would have been packed as an infinity.
    refine iff_of_false ?_ nofun
    rw [UnpackedFloat.unpackExponent_packComponents]
    rintro ⟨hfull, -⟩
    have hnat := congrArg BitVec.toNat hfull
    rw [BitVec.toNat_ofNat] at hnat
    change biased % 2 ^ 11 = 2047 at hnat
    change ¬ 2 ^ 11 ≤ biased + 1 at hover
    omega
  | case6 s m e hm bits biased hover hnormal =>
    refine iff_of_false ?_ nofun
    rw [UnpackedFloat.unpackExponent_packComponents]
    exact fun h => absurd h.1 (by decide)

namespace Binary64

/-- The unpacked number of a bit pattern. -/
def unpacked (x : Binary64) : UnpackedFloat :=
  x.toFloat.toModel.unpack

/-- A bit pattern that stands for no number is unpacked to none. -/
theorem unpack_bits_eq_notANumber_iff (x : Binary64) :
    UnpackedFloat.unpack .binary64 x.bits.toBitVec = .notANumber ↔ x.isNaN = true := by
  have hexponent : (@UnpackedFloat.unpackExponent .binary64 x.bits.toBitVec).toNat =
      x.exponentField := by
    rw [UnpackedFloat.unpackExponent, BitVec.toNat_cast, BitVec.extractLsb_toNat, exponentField,
      UInt64.toNat_and, UInt64.toNat_shiftRight]
    exact (Nat.and_two_pow_sub_one_eq_mod _ 11).symm
  have hfraction : (@UnpackedFloat.unpackMantissa .binary64 x.bits.toBitVec).toNat =
      x.fractionField := by
    rw [UnpackedFloat.unpackMantissa, BitVec.toNat_cast, BitVec.extractLsb_toNat, fractionField,
      UInt64.toNat_and]
    exact (Nat.and_two_pow_sub_one_eq_mod _ 52).symm
  rw [unpack_eq_notANumber_iff, ← BitVec.toNat_inj, ne_eq, ← BitVec.toNat_inj, hexponent, hfraction,
    isNaN, isFinite]
  simp

theorem unpacked_eq_notANumber_iff (x : Binary64) : x.unpacked = .notANumber ↔ x.isNaN = true := by
  rw [← unpack_bits_eq_notANumber_iff]
  exact unpack_pack_eq_notANumber_iff (UnpackedFloat.unpack .binary64 x.bits.toBitVec)

/-- Every integer widens to a number. -/
theorem isNaN_ofInt32 (n : Int32) : (ofInt32 n).isNaN = false := by
  have hround (sign : Sign) (m : ℕ) (e : ℤ) :
      UnpackedFloat.round .binary64 sign m e ≠ .notANumber := by
    simp only [UnpackedFloat.round, UnpackedFloat.roundWithAccuracy]
    split <;> exact nofun
  have hinteger : UnpackedFloat.ofInt32 .binary64 n ≠ .notANumber := by
    rw [UnpackedFloat.ofInt32, UnpackedFloat.ofInt, UnpackedFloat.normalize]
    split
    · exact hround _ _ _
    · exact nofun
    · exact hround _ _ _
  rw [← Bool.not_eq_true, ← unpack_bits_eq_notANumber_iff]
  exact fun h => hinteger ((unpack_pack_eq_notANumber_iff _).1 h)

theorem lt_iff (x y : Binary64) : x.lt y = true ↔
    x.isNaN = false ∧ y.isNaN = false ∧ rank x.unpacked < rank y.unpacked := by
  simp only [← Bool.not_eq_true, ← unpacked_eq_notANumber_iff]
  rw [lt, decide_eq_true_iff]
  change decide (x.toFloat.toModel < y.toFloat.toModel) = true ↔ _
  rw [decide_eq_true_iff]
  exact lt_iff_rank_lt x.unpacked y.unpacked

theorem lt_irrefl (x : Binary64) : x.lt x = false := by
  rw [← Bool.not_eq_true, lt_iff]
  exact fun ⟨_, _, hrank⟩ => (lt_self_iff_false _).1 hrank

theorem lt_trans {x y z : Binary64} (hxy : x.lt y = true) (hyz : y.lt z = true) :
    x.lt z = true := by
  rw [lt_iff] at hxy hyz ⊢
  exact ⟨hxy.1, hyz.2.1, hxy.2.2.trans hyz.2.2⟩

/-- A number is told apart from one of two others that are told apart. -/
theorem lt_or_lt {x y z : Binary64} (hy : y.isNaN = false) (hxz : x.lt z = true) :
    x.lt y = true ∨ y.lt z = true := by
  rw [lt_iff] at hxz
  rw [lt_iff, lt_iff]
  obtain ⟨hx, hz, hrank⟩ := hxz
  rcases lt_or_ge (rank x.unpacked) (rank y.unpacked) with hlt | hge
  · exact .inl ⟨hx, hy, hlt⟩
  · exact .inr ⟨hy, hz, hge.trans_lt hrank⟩

end Binary64

end Bytewalk
