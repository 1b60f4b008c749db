import Reckoner.Decimal.Shortest
import Mathlib

/-!
# The parts of a double

A positive double has a significand and an exponent.  Above the least exponent the
significand has all its fifty-three bits, so a double has no second pair of them.
-/

namespace Reckoner
namespace Decimal

open Float.Model UnpackedFloat

/-- A significand and an exponent as positive doubles have them. -/
structure Canonical (m : Nat) (q : Int) : Prop where
  pos : 0 < m
  lt : m < 2 ^ 53
  least : Interval.minExponent ≤ q
  full : Interval.minExponent < q -> 2 ^ 52 ≤ m

theorem toNat_significand (mantissa : BitVec 52) :
    ((1#1 : BitVec 1) ++ mantissa).toNat = 2 ^ 52 + mantissa.toNat := by
  rw [BitVec.toNat_append, ← Nat.shiftLeft_add_eq_or_of_lt mantissa.isLt]
  rfl

theorem canonical_of_bits {b : BitVec Format.binary64.numBits} {sign : Sign} {m : Nat}
    {q : Int} {hm : 0 < m} (h : UnpackedFloat.unpack Format.binary64 b = .finite sign m q hm) :
    Canonical m q := by
  have hleast : Interval.minExponent = -1074 := rfl
  have hmantissa : (unpackMantissa b).toNat < 2 ^ 52 := (unpackMantissa b).isLt
  unfold UnpackedFloat.unpack at h
  simp only at h
  split at h
  · split at h <;> cases h
  · split at h
    · rename_i hexponent
      split at h
      · cases h
      · rw [hexponent] at h
        injection h with _ hm hq
        change (0 : Int) - 1075 + 1 = q at hq
        constructor <;> omega
    · rename_i hexponent
      have hpos : 0 < (unpackExponent b).toNat := by
        rw [BitVec.toNat_pos, BitVec.pos_iff_ne_zero]
        exact hexponent
      injection h with _ hm hq
      rw [toNat_significand (unpackMantissa b)] at hm
      change ((unpackExponent b).toNat : Int) - 1075 = q at hq
      constructor <;> omega

theorem canonical_of_unpack {x : Float} {sign : Sign} {m : Nat} {q : Int} {hm : 0 < m}
    (h : x.toModel.unpack = .finite sign m q hm) : Canonical m q :=
  canonical_of_bits h

theorem isNaN_of_isFinite {u : UnpackedFloat} (hu : u.isFinite = true) : u.isNaN = false := by
  cases u with
  | notANumber => cases hu
  | _ => rfl

theorem eq_of_unpack {x y : Float} (h : x.toModel.unpack = y.toModel.unpack) : x = y := by
  have hbits := (unpack_inj_of_valid x.toModel.valid y.toModel.valid).mp h
  exact Float.toBits_inj.mp (UInt64.toBitVec_inj.mp hbits)

end Decimal
end Reckoner
