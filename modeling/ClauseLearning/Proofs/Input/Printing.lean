import ClauseLearning.Lit
import ClauseLearning.Proofs.Input.Numerals
import ClauseLearning.Proofs.Input.Words

/-! # Printed numbers are numerals

What is printed for a number or a literal is a numeral of it, as far as it fits into 64 bits, and a
numeral is a word that marks neither a comment, nor a problem line, nor the end of the input.
-/

namespace ClauseLearning.Text
variable {cs : List Char} {d n : Nat} {x : Int}

/-! ## Printing -/

/-- A digit more at the end counts least. -/
theorem Decimal.concat (decimal : Decimal cs n) (small : d < 10) :
    Decimal (cs ++ [Nat.digitChar d]) (10 * n + d) := by
  obtain ⟨digits, begun, below, rfl, rfl⟩ := decimal
  refine ⟨digits ++ [d], by simp, ?_, by simp, ?_⟩
  · simpa [or_imp, forall_and] using ⟨below, small⟩
  · rw [List.reverse_append, List.reverse_singleton, List.singleton_append, Nat.ofDigits_cons,
      Nat.add_comm]

theorem decimal_digitChar (small : d < 10) : Decimal [Nat.digitChar d] d :=
  ⟨[d], by simp, by simpa using small, rfl, by simp⟩

theorem decimal_toDigits (n : Nat) : Decimal (Nat.toDigits 10 n) n := by
  induction n using Nat.strongRecOn with
  | ind n ih =>
    by_cases small : n < 10
    · rw [Nat.toDigits_of_lt_base small]
      exact decimal_digitChar small
    · rw [Nat.toDigits_of_base_le (by decide) (Nat.le_of_not_lt small)]
      have decimal := (ih (n / 10) (by omega)).concat (Nat.mod_lt n (by decide : 0 < 10))
      rwa [Nat.div_add_mod] at decimal

theorem decimal_toString (n : Nat) : Decimal (toString n).toList n := by
  rw [Nat.toString_eq_repr, Nat.toList_repr]
  exact decimal_toDigits n

theorem unsigned_toString (bounded : n < 2 ^ 64) : Unsigned (toString n).toList n :=
  .bare (decimal_toString n) bounded

theorem signed_toString (low : -2 ^ 63 ≤ x) (high : x < 2 ^ 63) : Signed (toString x).toList x := by
  cases x with
  | ofNat n => exact .bare (decimal_toString n) (by simpa using high)
  | negSucc n =>
    have printed : (toString (Int.negSucc n)).toList = '-' :: (toString (n + 1)).toList := by
      simp [toString, Int.repr]
    rw [printed]
    exact .minus (decimal_toString (n + 1)) (by omega)

/-! ## Numerals as words -/

/-- A digit is no blank and marks no line. -/
theorem Decimal.plain (decimal : Decimal cs n) :
    ∀ c ∈ cs, isBlank c = false ∧ c ≠ 'c' ∧ c ≠ 'p' ∧ c ≠ '%' := by
  obtain ⟨digits, -, below, rfl, -⟩ := decimal
  intro c member
  obtain ⟨d, inside, rfl⟩ := List.mem_map.mp member
  have small := below d inside
  interval_cases d <;> decide

theorem Signed.plain (signed : Signed cs x) :
    ∀ c ∈ cs, isBlank c = false ∧ c ≠ 'c' ∧ c ≠ 'p' ∧ c ≠ '%' := by
  cases signed with
  | bare decimal => exact decimal.plain
  | plus decimal => exact List.forall_mem_cons.mpr ⟨by decide, decimal.plain⟩
  | minus decimal => exact List.forall_mem_cons.mpr ⟨by decide, decimal.plain⟩

theorem Decimal.ne_nil (decimal : Decimal cs n) : cs ≠ [] := by
  obtain ⟨digits, begun, -, rfl, -⟩ := decimal
  simpa using begun

theorem Signed.ne_nil (signed : Signed cs x) : cs ≠ [] := by
  cases signed with
  | bare decimal => exact decimal.ne_nil
  | plus => exact List.cons_ne_nil _ _
  | minus => exact List.cons_ne_nil _ _

end ClauseLearning.Text
