/-! # Ranking scores

Scores are floating-point numbers, compared by value: the two zeros are equal, and a score that is
not a number counts as zero. The rank of a score is an integer that orders scores in this way. It is
read off the bits: those of a non-negative number, taken as an integer, grow with the number.
-/

namespace ClauseLearning

/-- The integer that orders scores by value. -/
def scoreRank (score : Float) : Int :=
  let bits : Nat := score.toBits.toNat
  let magnitude : Nat := bits % (1 <<< 63)
  if 2047 <<< 52 < magnitude then 0
  else if bits < 1 <<< 63 then magnitude
  else -(magnitude : Int)

end ClauseLearning
