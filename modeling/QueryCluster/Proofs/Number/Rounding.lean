import Mathlib.Algebra.Order.Ring.Nat
import QueryCluster.Number.Float

/-!
# Whole numbers in a binary format

Rounding a whole number to a format keeps order: among numbers with the same last place the quotients
are in order, and numbers with a higher last place begin where those with a lower one end at the
latest. What needs no rounding keeps apart from all other numbers.
-/
namespace QueryCluster

namespace Number.BinaryFormat

theorem roundQuotient_mul (k : Nat) {den : Nat} (hden : 0 < den) :
    roundQuotient (k * den) den = k := by
  simp only [roundQuotient, Nat.mul_mod_left, Nat.mul_div_cancel k hden]
  rw [if_neg (by omega)]

theorem roundQuotient_mono {m n : Nat} (den : Nat) (h : m ≤ n) :
    roundQuotient m den ≤ roundQuotient n den := by
  have hdiv : m / den ≤ n / den := Nat.div_le_div_right h
  have hm := Nat.div_add_mod m den
  have hn := Nat.div_add_mod n den
  simp only [roundQuotient]
  rcases Nat.lt_or_eq_of_le hdiv with hlt | heq
  · -- The smaller quotient goes up to the larger one at most.
    split <;> split <;> omega
  · rw [heq] at hm ⊢
    generalize den * (n / den) = k at hm hn
    generalize n / den = q
    split <;> split <;> omega

theorem quotientLog2_one {n : Nat} (hn : n ≠ 0) : quotientLog2 n 1 = n.log2 := by
  have hlog : Nat.log2 1 = 0 := rfl
  have hle : 1 <<< n.log2 ≤ n := by
    rw [Nat.one_shiftLeft]
    exact Nat.log2_self_le hn
  simp [quotientLog2, hlog, hle]

theorem le_roundQuotient {k n den : Nat} (hden : 0 < den) (h : k * den ≤ n) :
    k ≤ roundQuotient n den := by
  rw [← roundQuotient_mul k hden]
  exact roundQuotient_mono den h

theorem roundQuotient_le {k n den : Nat} (hden : 0 < den) (h : n ≤ k * den) :
    roundQuotient n den ≤ k := by
  rw [← roundQuotient_mul k hden]
  exact roundQuotient_mono den h

/-- A whole number in units of `2 ^ q`, rounded. -/
def significand (n : Nat) (q : Int) : Nat := roundQuotient (n * 2 ^ (-q).toNat) (2 ^ q.toNat)

section Significand

variable {m n : Nat} {q : Int}

theorem significand_mono (h : m ≤ n) (q : Int) : significand m q ≤ significand n q :=
  roundQuotient_mono _ (Nat.mul_le_mul_right _ h)

theorem significand_eq (n : Nat) (q : Int) :
    significand n q =
      if q < 0 then roundQuotient (n <<< (-q).toNat) 1 else roundQuotient n (1 <<< q.toNat) := by
  rw [significand, Nat.shiftLeft_eq, Nat.shiftLeft_eq, Nat.one_mul]
  split
  · rename_i hq
    rw [Int.toNat_of_nonpos (Int.le_of_lt hq), Nat.pow_zero]
  · rename_i hq
    rw [Int.toNat_of_nonpos (by omega : -q ≤ 0), Nat.pow_zero, Nat.mul_one]

/-- Nothing is rounded in units of one or less. -/
theorem significand_exact (n : Nat) (hq : q ≤ 0) : significand n q = n * 2 ^ (-q).toNat := by
  have h := roundQuotient_mul (n * 2 ^ (-q).toNat) Nat.one_pos
  rwa [Nat.mul_one, ← Nat.pow_zero 2, ← Int.toNat_of_nonpos hq] at h

end Significand

variable (f : BinaryFormat)

/-- The power of two that the last bit of a rounded whole number stands for. -/
def lastPower (n : Nat) : Int := max (n.log2 - f.fractionBits) f.minPower

theorem roundMagnitude_whole {n : Nat} (hn : n ≠ 0) :
    f.roundMagnitude n 1 = min ((f.lastPower n - f.minPower).toNat * 2 ^ f.fractionBits +
      significand n (f.lastPower n)) f.infinity := by
  rw [roundMagnitude, if_neg hn, quotientLog2_one hn, ← Nat.shiftLeft_eq, significand_eq]
  rfl

section Binade

variable {m n : Nat}

theorem lastPower_mono (hm : m ≠ 0) (h : m ≤ n) : f.lastPower m ≤ f.lastPower n := by
  have hlog : m.log2 ≤ n.log2 := (Nat.le_log2 (by omega)).mpr (Nat.le_trans (Nat.log2_self_le hm) h)
  simp only [lastPower]
  omega

/-- A whole number above the smallest unit has all its leading bits. -/
theorem le_significand (hn : n ≠ 0) (hq : f.minPower < f.lastPower n) :
    2 ^ f.fractionBits ≤ significand n (f.lastPower n) := by
  refine le_roundQuotient (Nat.two_pow_pos _) ?_
  rw [← Nat.pow_add]
  calc 2 ^ (f.fractionBits + (f.lastPower n).toNat)
      ≤ 2 ^ (n.log2 + (-f.lastPower n).toNat) :=
        Nat.pow_le_pow_right (by decide) (by simp only [lastPower] at hq ⊢; omega)
    _ = 2 ^ n.log2 * 2 ^ (-f.lastPower n).toNat := Nat.pow_add ..
    _ ≤ n * 2 ^ (-f.lastPower n).toNat := Nat.mul_le_mul_right _ (Nat.log2_self_le hn)

theorem scaled_lt (n : Nat) :
    n * 2 ^ (-f.lastPower n).toNat < 2 * 2 ^ f.fractionBits * 2 ^ (f.lastPower n).toNat :=
  calc n * 2 ^ (-f.lastPower n).toNat
      < 2 ^ (n.log2 + 1) * 2 ^ (-f.lastPower n).toNat :=
        Nat.mul_lt_mul_of_pos_right Nat.lt_log2_self (Nat.two_pow_pos _)
    _ = 2 ^ (n.log2 + 1 + (-f.lastPower n).toNat) := (Nat.pow_add ..).symm
    _ ≤ 2 ^ (1 + f.fractionBits + (f.lastPower n).toNat) :=
        Nat.pow_le_pow_right (by decide) (by simp only [lastPower]; omega)
    _ = 2 * 2 ^ f.fractionBits * 2 ^ (f.lastPower n).toNat := by
        rw [Nat.pow_add, Nat.pow_add, Nat.pow_one]

theorem significand_le (n : Nat) : significand n (f.lastPower n) ≤ 2 * 2 ^ f.fractionBits :=
  roundQuotient_le (Nat.two_pow_pos _) (Nat.le_of_lt (f.scaled_lt n))

/-- Numbers of a larger unit begin where those of a smaller unit end at the latest. -/
theorem place_le {a : Nat} (hn : n ≠ 0) (hlt : f.lastPower m < f.lastPower n)
    (ha : a ≤ 2 * 2 ^ f.fractionBits) :
    (f.lastPower m - f.minPower).toNat * 2 ^ f.fractionBits + a ≤
      (f.lastPower n - f.minPower).toNat * 2 ^ f.fractionBits + significand n (f.lastPower n) := by
  have hmin : f.minPower ≤ f.lastPower m := le_max_right _ _
  have hsig := f.le_significand hn (Int.lt_of_le_of_lt hmin hlt)
  have hplace : (f.lastPower m - f.minPower).toNat + 1 ≤ (f.lastPower n - f.minPower).toNat := by
    omega
  have hscaled := Nat.mul_le_mul_right (2 ^ f.fractionBits) hplace
  rw [Nat.add_mul, Nat.one_mul] at hscaled
  omega

theorem place_lt {a : Nat} (hn : n ≠ 0) (hlt : f.lastPower m < f.lastPower n)
    (ha : a < 2 * 2 ^ f.fractionBits) :
    (f.lastPower m - f.minPower).toNat * 2 ^ f.fractionBits + a <
      (f.lastPower n - f.minPower).toNat * 2 ^ f.fractionBits + significand n (f.lastPower n) :=
  f.place_le hn hlt (Nat.succ_le_of_lt ha)

end Binade

theorem roundMagnitude_mono {m n : Nat} (h : m ≤ n) :
    f.roundMagnitude m 1 ≤ f.roundMagnitude n 1 := by
  by_cases hm : m = 0
  · rw [hm, roundMagnitude, if_pos rfl]
    exact Nat.zero_le _
  have hn : n ≠ 0 := by omega
  rw [f.roundMagnitude_whole hm, f.roundMagnitude_whole hn]
  refine min_le_min_right _ ?_
  rcases Int.lt_or_eq_of_le (f.lastPower_mono hm h) with hlt | heq
  · exact f.place_le hn hlt (f.significand_le m)
  · rw [heq]
    exact Nat.add_le_add_left (significand_mono h _) _

/-- What needs no rounding stays below all that is greater. -/
theorem roundMagnitude_strict {m n : Nat} (hm : m ≠ 0) (h : m < n) (hexact : f.lastPower m ≤ 0)
    (hfinite : f.roundMagnitude m 1 < f.infinity) :
    f.roundMagnitude m 1 < f.roundMagnitude n 1 := by
  have hn : n ≠ 0 := by omega
  rw [f.roundMagnitude_whole hn]
  refine lt_min ?_ hfinite
  rw [f.roundMagnitude_whole hm]
  refine Nat.lt_of_le_of_lt (min_le_left _ _) ?_
  rcases Int.lt_or_eq_of_le (f.lastPower_mono hm (Nat.le_of_lt h)) with hlt | heq
  · refine f.place_lt hn hlt ?_
    have hscaled := f.scaled_lt m
    rw [Int.toNat_of_nonpos hexact, Nat.pow_zero, Nat.mul_one] at hscaled
    rwa [significand_exact m hexact]
  · rw [← heq, significand_exact m hexact, significand_exact n hexact]
    exact Nat.add_lt_add_left (Nat.mul_lt_mul_of_pos_right h (Nat.two_pow_pos _)) _

end Number.BinaryFormat

/-!
## Where doubles stand

Whole numbers come to stand in their own order when they are rounded to doubles, and two of them in
one place only from two to the fifty-three on. Different doubles stand in one place only if both are
zeros or neither is a number.
-/

namespace Double

open Number (BinaryFormat)

/-- Up to the precision of a double, whole numbers keep apart. -/
theorem roundMagnitude_lt {m n : Nat} (h : m < n) (hm : m < 2 ^ 53) :
    BinaryFormat.double.roundMagnitude m 1 < BinaryFormat.double.roundMagnitude n 1 := by
  by_cases hzero : m = 0
  · subst hzero
    have hone : BinaryFormat.double.roundMagnitude 0 1 < BinaryFormat.double.roundMagnitude 1 1 := by
      decide
    exact Nat.lt_of_lt_of_le hone (BinaryFormat.double.roundMagnitude_mono h)
  · have hlog : m.log2 < 53 := (Nat.log2_lt hzero).mpr hm
    refine BinaryFormat.double.roundMagnitude_strict hzero h ?_ ?_
    · have hbits : BinaryFormat.double.fractionBits = 52 := rfl
      have hmin : BinaryFormat.double.minPower = -1074 := rfl
      rw [BinaryFormat.lastPower, hbits, hmin]
      omega
    · refine Nat.lt_of_le_of_lt (BinaryFormat.double.roundMagnitude_mono (Nat.le_of_lt hm)) ?_
      decide

theorem roundMagnitude_le (n : Nat) :
    BinaryFormat.double.roundMagnitude n 1 ≤ BinaryFormat.double.infinity := by
  rw [BinaryFormat.roundMagnitude]
  split
  · exact Nat.zero_le _
  · exact min_le_right _ _

/-- A whole number stands where its magnitude rounds to, on its side of zero. -/
theorem rank_ofInt (i : Int) :
    (ofInt i).rank = if i < 0 then -(BinaryFormat.double.roundMagnitude i.natAbs 1 : Int)
      else BinaryFormat.double.roundMagnitude i.natAbs 1 := by
  have hle := roundMagnitude_le i.natAbs
  have hinf : BinaryFormat.double.infinity = 2047 * 2 ^ 52 := rfl
  have hsign : BinaryFormat.double.signBit = 2 ^ 63 := rfl
  rw [hinf] at hle
  simp only [rank, isNaN, ofInt, ofPattern, BinaryFormat.ofInt, UInt64.toNat_ofNat',
    BinaryFormat.withSign, BinaryFormat.isNaN, BinaryFormat.isNegative, BinaryFormat.magnitude,
    hsign, hinf]
  generalize BinaryFormat.double.roundMagnitude i.natAbs 1 = r at hle
  by_cases hi : i < 0
  · simp only [hi, decide_true, if_true]
    have hbits : (2 ^ 63 + r) % 2 ^ 64 = 2 ^ 63 + r := by omega
    have hmagnitude : (2 ^ 63 + r) % 2 ^ 63 = r := by omega
    simp only [hbits, hmagnitude]
    rw [if_neg (by simp; omega), if_pos (by simp)]
  · simp only [hi, decide_false, if_false, Bool.false_eq_true]
    have hbits : r % 2 ^ 64 = r := by omega
    have hmagnitude : r % 2 ^ 63 = r := by omega
    simp only [hbits, hmagnitude]
    rw [if_neg (by simp; omega), if_neg (by simp; omega)]

theorem rank_ofInt_mono {i j : Int} (h : i ≤ j) : (ofInt i).rank ≤ (ofInt j).rank := by
  rw [rank_ofInt, rank_ofInt]
  split <;> split
  · have hmono := BinaryFormat.double.roundMagnitude_mono (show j.natAbs ≤ i.natAbs by omega)
    omega
  · omega
  · omega
  · have hmono := BinaryFormat.double.roundMagnitude_mono (show i.natAbs ≤ j.natAbs by omega)
    omega

theorem le_of_roundMagnitude_eq {m n : Nat} (hne : m ≠ n)
    (h : BinaryFormat.double.roundMagnitude m 1 = BinaryFormat.double.roundMagnitude n 1) :
    2 ^ 53 ≤ m := by
  refine Nat.le_of_not_lt fun hm => ?_
  rcases Nat.lt_or_gt_of_ne hne with hlt | hlt
  · exact absurd h (Nat.ne_of_lt (roundMagnitude_lt hlt hm))
  · exact absurd h.symm (Nat.ne_of_lt (roundMagnitude_lt hlt (Nat.lt_trans hlt hm)))

theorem le_natAbs_of_rank_eq {i j : Int} (hne : i ≠ j) (h : (ofInt i).rank = (ofInt j).rank) :
    2 ^ 53 ≤ i.natAbs ∧ 2 ^ 53 ≤ j.natAbs := by
  have hpos : ∀ k : Int, k < 0 → 0 < BinaryFormat.double.roundMagnitude k.natAbs 1 := fun k hk =>
    Nat.lt_of_le_of_lt (Nat.zero_le _) (roundMagnitude_lt (show 0 < k.natAbs by omega) (by decide))
  have hi := hpos i
  have hj := hpos j
  -- No place but zero is on both sides of zero, so the two numbers are on one side.
  obtain ⟨hsame, habs⟩ : BinaryFormat.double.roundMagnitude i.natAbs 1 =
      BinaryFormat.double.roundMagnitude j.natAbs 1 ∧ i.natAbs ≠ j.natAbs := by
    rw [rank_ofInt, rank_ofInt] at h
    split at h <;> split at h <;> omega
  exact ⟨le_of_roundMagnitude_eq habs hsame, le_of_roundMagnitude_eq habs.symm hsame.symm⟩

/-- A zero of either sign. -/
def isZero (x : Double) : Bool := BinaryFormat.double.magnitude x.bits.toNat == 0

/-- Doubles in one place are the same, or zeros, or not numbers. -/
theorem eq_of_rank_eq {x y : Double} (h : x.rank = y.rank) :
    x = y ∨ (x.isZero ∧ y.isZero) ∨ (x.isNaN ∧ y.isNaN) := by
  have hx := x.bits.toNat_lt
  have hy := y.bits.toNat_lt
  have heq : x.bits.toNat = y.bits.toNat → x = y := fun hbits =>
    congrArg Double.mk (UInt64.toNat_inj.mp hbits)
  have hinf : BinaryFormat.double.infinity = 2047 * 2 ^ 52 := rfl
  have hsign : BinaryFormat.double.signBit = 2 ^ 63 := rfl
  have hsize : UInt64.size = 2 ^ 64 := rfl
  simp only [rank, isNaN, isZero, BinaryFormat.isNaN, BinaryFormat.isNegative,
    BinaryFormat.magnitude, hinf, hsign, hsize, decide_eq_true_eq, beq_iff_eq] at h ⊢
  by_cases hxnan : 2047 * 2 ^ 52 < x.bits.toNat % 2 ^ 63 <;>
    by_cases hynan : 2047 * 2 ^ 52 < y.bits.toNat % 2 ^ 63
  · exact .inr (.inr ⟨hxnan, hynan⟩)
  · rw [if_pos hxnan, if_neg hynan] at h
    split at h <;> omega
  · rw [if_neg hxnan, if_pos hynan] at h
    split at h <;> omega
  · rw [if_neg hxnan, if_neg hynan] at h
    by_cases hzero : x.bits.toNat % 2 ^ 63 = 0
    · refine .inr (.inl ⟨hzero, ?_⟩)
      split at h <;> split at h <;> omega
    · refine .inl (heq ?_)
      split at h <;> split at h <;> omega

end Double
end QueryCluster
