import ClauseLearning.Branching.Score
import Mathlib.Algebra.Group.Int.Defs
import Mathlib.Algebra.Group.Nat.Defs

/-! # Ranks order scores by value

A double-precision number is a sign, an exponent of eleven bits and a fraction of 52 bits. Numbers are
compared by these parts, with the two zeros equal and the infinite numbers at the ends. The rank of a score
is the whole word without its sign bit, to which the sign is given back. It compares in the same way because
the exponent stands above the fraction.
-/

namespace ClauseLearning

open Float.Model
open Float.Model.UnpackedFloat (Sign unpackExponent unpackMantissa unpackSign)

/-- The score as it counts in a comparison: what is not a number counts as zero. -/
def countedScore (score : Float) : Float := if score.isNaN then 0 else score

/-- The parts of a number, with its rank. Only numbers of the least exponent lack the leading bit, and the
place of a number is how far its exponent is from the least. -/
inductive Ranked : UnpackedFloat → Int → Prop
  | zero {s : Sign} : Ranked (.zero s) 0
  | finite {s : Sign} {mantissa place : Nat} (positive : 0 < mantissa) (below : mantissa < 2 ^ 53)
      (leading : 2 ^ 52 ≤ mantissa ∨ place = 0) (bounded : place < 2046) :
      Ranked (.finite s mantissa (place - 1074) positive) (s.apply (place * 2 ^ 52 + mantissa))
  | infinity {s : Sign} : Ranked (.infinity s) (s.apply (2047 * 2 ^ 52))

section Comparison

/-- Positive numbers compare by exponent first, and so do their ranks. -/
private theorem compare_finite {mantissa mantissa' place place' : Nat} (below : mantissa < 2 ^ 53)
    (leading : 2 ^ 52 ≤ mantissa ∨ place = 0) (below' : mantissa' < 2 ^ 53)
    (leading' : 2 ^ 52 ≤ mantissa' ∨ place' = 0) :
    (compare ((place : Int) - 1074) ((place' : Int) - 1074)).then (compare mantissa mantissa') =
      compare ((place : Int) * 2 ^ 52 + mantissa) ((place' : Int) * 2 ^ 52 + mantissa') := by
  rcases Nat.lt_trichotomy place place' with lower | rfl | higher
  · have exponents : (place : Int) - 1074 < place' - 1074 := by omega
    have ranks : (place : Int) * 2 ^ 52 + mantissa < place' * 2 ^ 52 + mantissa' := by omega
    rw [Int.compare_eq_lt.mpr exponents, Int.compare_eq_lt.mpr ranks]
    rfl
  · rw [Int.compare_eq_eq.mpr rfl]
    rcases Nat.lt_trichotomy mantissa mantissa' with less | rfl | more
    · have ranks : (place : Int) * 2 ^ 52 + mantissa < place * 2 ^ 52 + mantissa' := by omega
      rw [Nat.compare_eq_lt.mpr less, Int.compare_eq_lt.mpr ranks]
      rfl
    · rw [Nat.compare_eq_eq.mpr rfl, Int.compare_eq_eq.mpr rfl]
      rfl
    · have ranks : (place : Int) * 2 ^ 52 + mantissa' < place * 2 ^ 52 + mantissa := by omega
      rw [Nat.compare_eq_gt.mpr more, Int.compare_eq_gt.mpr ranks]
      rfl
  · have exponents : (place' : Int) - 1074 < place - 1074 := by omega
    have ranks : (place' : Int) * 2 ^ 52 + mantissa' < place * 2 ^ 52 + mantissa := by omega
    rw [Int.compare_eq_gt.mpr exponents, Int.compare_eq_gt.mpr ranks]
    rfl

private theorem compare_neg (rank rank' : Int) : compare (-rank) (-rank') = (compare rank rank').swap := by
  rw [Int.compare_swap, Int.compare_eq_ite_lt, Int.compare_eq_ite_lt]
  simp only [Int.neg_lt_neg_iff]

private theorem eq_compare_of_lt {rank rank' : Int} (lower : rank < rank') :
    some Ordering.lt = some (compare rank rank') := by
  rw [Int.compare_eq_lt.mpr lower]

private theorem eq_compare_of_gt {rank rank' : Int} (higher : rank' < rank) :
    some Ordering.gt = some (compare rank rank') := by
  rw [Int.compare_eq_gt.mpr higher]

/-- Numbers compare as their ranks do. -/
theorem Ranked.compare_eq {number number' : UnpackedFloat} {rank rank' : Int} (ranked : Ranked number rank)
    (ranked' : Ranked number' rank') : number.compare number' = some (compare rank rank') := by
  cases ranked with
  | zero =>
    cases ranked' with
    | zero => rfl
    | @finite s' mantissa' place' =>
      cases s' with
      | positive => exact eq_compare_of_lt (by simp only [Sign.apply]; omega)
      | negative => exact eq_compare_of_gt (by simp only [Sign.apply]; omega)
    | @infinity s' => cases s' <;> rfl
  | @finite s mantissa place positive below leading bounded =>
    cases ranked' with
    | zero =>
      cases s with
      | positive => exact eq_compare_of_gt (by simp only [Sign.apply]; omega)
      | negative => exact eq_compare_of_lt (by simp only [Sign.apply]; omega)
    | @finite s' mantissa' place' positive' below' leading' bounded' =>
      cases s with
      | positive =>
        cases s' with
        | positive => exact congrArg some (compare_finite below leading below' leading')
        | negative => exact eq_compare_of_gt (by simp only [Sign.apply]; omega)
      | negative =>
        cases s' with
        | positive => exact eq_compare_of_lt (by simp only [Sign.apply]; omega)
        | negative =>
          change _ = some (compare (-_) (-_))
          rw [compare_neg, ← compare_finite below leading below' leading']
          rfl
    | @infinity s' =>
      have below : s.apply (place * 2 ^ 52 + mantissa) < 2047 * 2 ^ 52 ∧
          -(2047 * 2 ^ 52) < s.apply (place * 2 ^ 52 + mantissa) := by
        cases s <;> simp only [Sign.apply] <;> omega
      cases s' with
      | positive => exact eq_compare_of_lt below.1
      | negative => exact eq_compare_of_gt below.2
  | @infinity s =>
    cases ranked' with
    | zero => cases s <;> rfl
    | @finite s' mantissa' place' positive' below' leading' bounded' =>
      have below : s'.apply (place' * 2 ^ 52 + mantissa') < 2047 * 2 ^ 52 ∧
          -(2047 * 2 ^ 52) < s'.apply (place' * 2 ^ 52 + mantissa') := by
        cases s' <;> simp only [Sign.apply] <;> omega
      cases s with
      | positive => exact eq_compare_of_gt below.1
      | negative => exact eq_compare_of_lt below.2
    | @infinity s' => cases s <;> cases s' <;> rfl

end Comparison

section Reading

private theorem toNat_unpackExponent (bits : BitVec Format.binary64.numBits) :
    (unpackExponent bits).toNat = bits.toNat / 2 ^ 52 % 2 ^ 11 := by
  simp [unpackExponent, Nat.shiftRight_eq_div_pow]

private theorem toNat_unpackMantissa (bits : BitVec Format.binary64.numBits) :
    (unpackMantissa bits).toNat = bits.toNat % 2 ^ 52 := by
  simp [unpackMantissa]

variable {bits : BitVec Format.binary64.numBits}

private theorem unpackExponent_eq_iff :
    unpackExponent bits = -1#11 ↔ bits.toNat / 2 ^ 52 % 2 ^ 11 = 2047 := by
  rw [← BitVec.toNat_inj, toNat_unpackExponent]
  rfl

private theorem unpackMantissa_eq_iff : unpackMantissa bits = 0#52 ↔ bits.toNat % 2 ^ 52 = 0 := by
  rw [← BitVec.toNat_inj, toNat_unpackMantissa]
  rfl

private theorem apply_unpackSign (word : Int) : (Sign.ofBitVec (unpackSign bits)).apply word =
    if bits.toNat < 2 ^ 63 then word else -word := by
  have size : bits.toNat < 2 ^ 64 := bits.isLt
  have sign : (unpackSign bits).toNat = bits.toNat / 2 ^ 63 % 2 := by
    change (BitVec.cast _ (BitVec.extractLsb 63 63 bits)).toNat = _
    simp [Nat.shiftRight_eq_div_pow]
  split
  · have positive : unpackSign bits = 0#1 := by
      apply BitVec.toNat_inj.mp
      rw [sign]
      change _ = 0
      omega
    rw [positive]
    rfl
  · have negative : unpackSign bits = 1#1 := by
      apply BitVec.toNat_inj.mp
      rw [sign]
      change _ = 1
      omega
    rw [negative]
    rfl

/-- The leading bit stands above the fraction. -/
private theorem toNat_leading : (1#1 ++ unpackMantissa bits).toNat = 2 ^ 52 + bits.toNat % 2 ^ 52 := by
  have fraction : (unpackMantissa bits).toNat < 2 ^ 52 := (unpackMantissa bits).isLt
  rw [BitVec.toNat_append, ← toNat_unpackMantissa, ← Nat.shiftLeft_add_eq_or_of_lt fraction]
  rfl

private theorem unpack_of_undefined (exponent : bits.toNat / 2 ^ 52 % 2 ^ 11 = 2047)
    (fraction : bits.toNat % 2 ^ 52 ≠ 0) : UnpackedFloat.unpack Format.binary64 bits = .notANumber := by
  change (if unpackExponent bits = -1#11 then if unpackMantissa bits = 0#52 then _ else _ else _) = _
  rw [if_pos (unpackExponent_eq_iff.mpr exponent), if_neg (mt unpackMantissa_eq_iff.mp fraction)]

private theorem ranked_finite {s : Sign} {mantissa word : Nat} {exponent : Int} (place : Nat)
    (positive : 0 < mantissa) (below : mantissa < 2 ^ 53) (leading : 2 ^ 52 ≤ mantissa ∨ place = 0)
    (bounded : place < 2046) (exponentEq : exponent = place - 1074)
    (wordEq : word = place * 2 ^ 52 + mantissa) :
    Ranked (.finite s mantissa exponent positive) (s.apply word) := by
  subst exponentEq wordEq
  exact .finite positive below leading bounded

/-- The parts of the number in a word, with the word for its rank. -/
private theorem ranked_unpack
    (defined : ¬ (bits.toNat / 2 ^ 52 % 2 ^ 11 = 2047 ∧ bits.toNat % 2 ^ 52 ≠ 0)) :
    Ranked (UnpackedFloat.unpack Format.binary64 bits)
      (if bits.toNat < 2 ^ 63 then (bits.toNat % 2 ^ 63 : Nat) else -(bits.toNat % 2 ^ 63 : Nat)) := by
  have bias :
      (Format.binary64.exponentBias : Int) + Format.binary64.mantissaBitsWithoutImplicit = 1075 := rfl
  have exponentEq := toNat_unpackExponent bits
  rw [← apply_unpackSign]
  change Ranked (if unpackExponent bits = -1#11 then
      if unpackMantissa bits = 0#52 then .infinity _ else .notANumber
    else if unpackExponent bits = 0#11 then
      if _ : unpackMantissa bits = 0#52 then .zero _ else .finite _ _ _ _
    else .finite _ _ _ _) _
  generalize Sign.ofBitVec (unpackSign bits) = s
  -- The last exponent is that of the infinite numbers, and the first that of numbers without a leading bit.
  by_cases last : unpackExponent bits = -1#11
  · have exponent := unpackExponent_eq_iff.mp last
    have fraction : bits.toNat % 2 ^ 52 = 0 :=
      Decidable.not_not.mp fun nonzero => defined ⟨exponent, nonzero⟩
    have word : bits.toNat % 2 ^ 63 = 2047 * 2 ^ 52 := by omega
    rw [if_pos last, if_pos (unpackMantissa_eq_iff.mpr fraction), word]
    exact .infinity
  · have exponent := mt unpackExponent_eq_iff.mpr last
    rw [if_neg last]
    by_cases first : unpackExponent bits = 0#11
    · rw [first] at exponentEq
      simp only [BitVec.toNat_ofNat, Nat.zero_mod] at exponentEq
      rw [if_pos first]
      by_cases zero : unpackMantissa bits = 0#52
      · have fraction := unpackMantissa_eq_iff.mp zero
        have word : bits.toNat % 2 ^ 63 = 0 := by omega
        rw [dif_pos zero, word]
        cases s <;> exact .zero
      · rw [dif_neg zero]
        refine ranked_finite 0 _ ?_ (.inr rfl) (by decide) ?_ ?_
        · rw [toNat_unpackMantissa]
          omega
        · rw [bias, first]
          rfl
        · rw [toNat_unpackMantissa]
          omega
    · have nonzero : (unpackExponent bits).toNat ≠ 0 := fun zero => first (BitVec.toNat_inj.mp zero)
      have fraction : bits.toNat % 2 ^ 52 < 2 ^ 52 := Nat.mod_lt _ (Nat.two_pow_pos 52)
      rw [if_neg first]
      refine ranked_finite ((unpackExponent bits).toNat - 1) _ ?_ (.inl ?_) ?_ ?_ ?_
      · rw [toNat_leading]
        omega
      · rw [toNat_leading]
        omega
      · omega
      · rw [bias]
        omega
      · rw [toNat_leading]
        omega

private theorem Ranked.isNaN_eq {number : UnpackedFloat} {rank : Int} (ranked : Ranked number rank) :
    number.isNaN = false := by
  cases ranked <;> rfl

end Reading

variable {score other : Float}

/-- The rank of a score is that of the number it counts as. -/
theorem ranked_countedScore (score : Float) :
    Ranked (countedScore score).toModel.unpack (scoreRank score) := by
  have parts : score.toModel.unpack = UnpackedFloat.unpack Format.binary64 score.toBits.toBitVec := rfl
  rw [scoreRank, countedScore]
  simp only [Nat.shiftLeft_eq, Nat.one_mul]
  by_cases undefined : score.toBits.toNat / 2 ^ 52 % 2 ^ 11 = 2047 ∧ score.toBits.toNat % 2 ^ 52 ≠ 0
  · have notNumber : score.isNaN = true := by
      change score.toModel.unpack.isNaN = true
      rw [parts, unpack_of_undefined undefined.1 undefined.2]
      rfl
    rw [if_pos notNumber, if_pos (by omega)]
    exact .zero
  · have ranked := ranked_unpack undefined
    rw [← parts] at ranked
    have number : score.isNaN = false := ranked.isNaN_eq
    rw [number, if_neg Bool.false_ne_true, if_neg (by omega)]
    exact ranked

/-- Scores rank in the order of the numbers they count as. -/
theorem scoreRank_lt_iff : scoreRank score < scoreRank other ↔ countedScore score < countedScore other := by
  have compared := (ranked_countedScore score).compare_eq (ranked_countedScore other)
  have lower : countedScore score < countedScore other ↔
      (countedScore score).toModel.unpack.compare (countedScore other).toModel.unpack = some .lt := by
    change decide ((countedScore score).toModel < (countedScore other).toModel) = true ↔ _
    rw [decide_eq_true_iff]
    exact beq_iff_eq
  rw [lower, compared, Option.some.injEq, Int.compare_eq_lt]

/-- Scores rank equal if the numbers they count as are equal. The two zeros are. -/
theorem scoreRank_eq_iff :
    scoreRank score = scoreRank other ↔ (countedScore score == countedScore other) = true := by
  have compared := (ranked_countedScore score).compare_eq (ranked_countedScore other)
  have same : (countedScore score == countedScore other) = true ↔
      (countedScore score).toModel.unpack.compare (countedScore other).toModel.unpack = some .eq :=
    @beq_iff_eq (Option Ordering) _ _ _ _
  rw [same, compared, Option.some.injEq, Int.compare_eq_eq]

end ClauseLearning
