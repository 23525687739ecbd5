import Mathlib

/-!
# Packed and unpacked values

A bit pattern stands for a sign, a significand and an exponent. This module says which triples are
those of a bit pattern, and that packing and unpacking are inverse to each other on them.

## Contents
- `Canonical`: the unpacked values of bit patterns.
- `unpack_pack_finite`: a canonical value that is not too large comes back as it is.
- `canonical_unpack`: what is unpacked is canonical.
-/

namespace EmbeddingSearch

namespace Numeric

open Float.Model (Format UnpackedFloat)
open Float.Model.UnpackedFloat

/-! ## Canonical values -/

/-- Whether an unpacked value is the one that a bit pattern of the format unpacks to: the leading
bit of the significand is set, except at the least exponent. -/
def Canonical (f : Format) : UnpackedFloat → Prop
  | .finite _ m e _ => m < 2 ^ f.mantissaBits ∧ f.minExponent ≤ e ∧
      (2 ^ f.mantissaBitsWithoutImplicit ≤ m ∨ e = f.minExponent)
  | _ => True

/-- The exponent of the largest values of a format. -/
def maxExponent (f : Format) : Int := f.exponentBias - f.mantissaBitsWithoutImplicit

theorem two_pow_exponentBits (f : Format) : 2 ^ f.exponentBits = 2 * (f.exponentBias + 1) := by
  have hpos : 0 < 2 ^ (f.exponentBits - 1) := Nat.two_pow_pos _
  have hbits : f.exponentBits = f.exponentBits - 1 + 1 := by
    have := f.he
    omega
  rw [hbits, pow_succ, Format.exponentBias]
  omega

theorem minExponent_eq (f : Format) :
    f.minExponent = 1 - (f.exponentBias : Int) - f.mantissaBitsWithoutImplicit := by
  have hpos : 0 < 2 ^ (f.exponentBits - 1) := Nat.two_pow_pos _
  have hbias : ((f.exponentBias : Nat) : Int) = 2 ^ (f.exponentBits - 1) - 1 := by
    rw [Format.exponentBias, Nat.cast_sub hpos]
    push_cast
    rfl
  rw [hbias, Format.minExponent, Format.mantissaBits]
  push_cast
  ring

/-! ## The parts of a bit pattern -/

theorem zero_ne_negOne (f : Format) : (0#f.exponentBits) ≠ -1#f.exponentBits :=
  mt BitVec.zero_eq_neg_one_iff.mp f.he.ne'

/-- The significand of a normal value from its stored bits. -/
theorem toNat_implicit_append {n : Nat} {m : Nat} (hlo : 2 ^ n ≤ m) (hhi : m < 2 ^ (1 + n)) :
    (1#1 ++ BitVec.ofNat n m).toNat = m := by
  rw [BitVec.toNat_append, BitVec.toNat_ofNat, BitVec.toNat_ofNat,
    ← Nat.shiftLeft_add_eq_or_of_lt (Nat.mod_lt _ (Nat.two_pow_pos n)), Nat.shiftLeft_eq]
  rw [pow_add] at hhi
  have hmod : m % 2 ^ n = m - 2 ^ n := by
    rw [Nat.mod_eq_sub_mod hlo, Nat.mod_eq_of_lt (by omega)]
  rw [hmod]
  norm_num
  omega

/-- A canonical value that is not too large is unpacked as it was packed. -/
theorem unpack_pack_finite {f : Format} {s : Sign} {m : Nat} {e : Int} {hm : 0 < m}
    (hc : Canonical f (.finite s m e hm)) (he : e ≤ maxExponent f) :
    unpack f (pack f (.finite s m e hm)) = .finite s m e hm := by
  obtain ⟨hlt, hmin, hnormal⟩ := hc
  rw [minExponent_eq] at hmin
  have hbits := two_pow_exponentBits f
  obtain ⟨b, hb⟩ : ∃ b : Nat, (b : Int) = e + f.exponentBias + f.mantissaBitsWithoutImplicit :=
    Int.eq_ofNat_of_zero_le (by omega) |>.imp fun _ h => h.symm
  have hbiased : (e + f.exponentBias + f.mantissaBitsWithoutImplicit).toNat = b := by omega
  have hfits : b + 1 < 2 ^ f.exponentBits := by
    unfold maxExponent at he
    omega
  have hlog : m.log2 + 1 = f.mantissaBits ↔ 2 ^ f.mantissaBitsWithoutImplicit ≤ m := by
    have hlt' := (Nat.log2_lt hm.ne').mpr hlt
    rw [← Nat.le_log2 hm.ne']
    unfold Format.mantissaBits at hlt' ⊢
    omega
  rw [pack]
  simp only [hbiased, if_neg (Nat.not_le.mpr hfits), hlog]
  by_cases hnorm : 2 ^ f.mantissaBitsWithoutImplicit ≤ m
  · -- a normal value: the stored exponent is neither the least nor the largest
    have hne : BitVec.ofNat f.exponentBits b ≠ -1#_ := by
      intro h
      have hnat := congrArg BitVec.toNat h
      rw [BitVec.neg_one_eq_allOnes, BitVec.toNat_allOnes, BitVec.toNat_ofNat,
        Nat.mod_eq_of_lt (by omega)] at hnat
      omega
    have hne0 : BitVec.ofNat f.exponentBits b ≠ 0#_ := by
      intro h
      have hnat := congrArg BitVec.toNat h
      rw [BitVec.toNat_ofNat, BitVec.toNat_ofNat, Nat.mod_eq_of_lt (by omega),
        Nat.zero_mod] at hnat
      omega
    simp only [if_pos hnorm, unpack, unpackExponent_packComponents, unpackMantissa_packComponents,
      unpackSign_packComponents, Sign.ofBitVec_toBitVec, if_neg hne, if_neg hne0,
      toNat_implicit_append hnorm hlt]
    congr 1
    rw [BitVec.toNat_ofNat, Nat.mod_eq_of_lt (by omega)]
    omega
  · -- a subnormal value: the significand is stored as it is
    have hsub : (BitVec.ofNat f.mantissaBitsWithoutImplicit m).toNat = m := by
      rw [BitVec.toNat_ofNat, Nat.mod_eq_of_lt (by omega)]
    have hne : BitVec.ofNat f.mantissaBitsWithoutImplicit m ≠ 0#_ := by
      intro h
      have hnat := congrArg BitVec.toNat h
      rw [hsub, BitVec.toNat_ofNat, Nat.zero_mod] at hnat
      omega
    simp only [if_neg hnorm, unpack, unpackExponent_packComponents, unpackMantissa_packComponents,
      unpackSign_packComponents, Sign.ofBitVec_toBitVec, if_neg (zero_ne_negOne f), if_true,
      dif_neg hne, hsub]
    congr 1
    have := hnormal.resolve_left hnorm
    rw [minExponent_eq] at this
    simp
    omega

theorem canonical_unpack (f : Format) (b : BitVec f.numBits) : Canonical f (unpack f b) := by
  unfold unpack
  dsimp only
  split
  · split <;> trivial
  · split
    · next hzero =>
      split
      · trivial
      · refine ⟨?_, ?_, ?_⟩
        · have := (unpackMantissa b).isLt
          rw [Format.mantissaBits, pow_add]
          omega
        · rw [minExponent_eq, hzero]
          simp
          omega
        · right
          rw [minExponent_eq, hzero]
          simp
          omega
    · next hzero =>
      have hpos : 0 < (unpackExponent b).toNat := by
        rw [Nat.pos_iff_ne_zero]
        exact fun h => hzero (BitVec.eq_of_toNat_eq (by simpa using h))
      refine ⟨(1#1 ++ unpackMantissa b).isLt, ?_, Or.inl ?_⟩
      · rw [minExponent_eq]
        omega
      · rw [BitVec.toNat_append]
        exact le_trans (by simp [Nat.shiftLeft_eq]) Nat.left_le_or

end Numeric

end EmbeddingSearch
