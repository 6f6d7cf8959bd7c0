import ClauseLearning.Text.Numeral
import Mathlib.Data.List.Forall2
import Mathlib.Data.Nat.Digits.Defs
import Mathlib.Tactic.IntervalCases

/-! # Which numerals are read

A numeral is described by its digits: it is a row of them, the first one counting most, possibly after
a sign. The functions that read numerals accept exactly these, as far as the value fits into 64 bits.
-/

namespace ClauseLearning.Text

/-- The text consists of the decimal digits of a number, the most significant one first. There is at
least one digit, and leading zeros are allowed. -/
def Decimal (cs : List Char) (value : Nat) : Prop :=
  ∃ digits : List Nat, digits ≠ [] ∧ (∀ d ∈ digits, d < 10) ∧ cs = digits.map Nat.digitChar ∧
    value = Nat.ofDigits 10 digits.reverse

/-- The text is a numeral of an unsigned 64-bit integer. -/
inductive Unsigned : List Char → Nat → Prop
  | bare {cs : List Char} {value : Nat} : Decimal cs value → value < 2 ^ 64 → Unsigned cs value
  | plus {cs : List Char} {value : Nat} : Decimal cs value → value < 2 ^ 64 → Unsigned ('+' :: cs) value

/-- The text is a numeral of a signed 64-bit integer. -/
inductive Signed : List Char → Int → Prop
  | bare {cs : List Char} {value : Nat} : Decimal cs value → value < 2 ^ 63 → Signed cs value
  | plus {cs : List Char} {value : Nat} : Decimal cs value → value < 2 ^ 63 → Signed ('+' :: cs) value
  | minus {cs : List Char} {value : Nat} :
      Decimal cs value → value ≤ 2 ^ 63 → Signed ('-' :: cs) (-value)

/-! ## Digits -/

theorem digit?_eq_some_iff {c : Char} {d : Nat} : digit? c = some d ↔ d < 10 ∧ Nat.digitChar d = c := by
  constructor
  · intro read
    simp only [digit?] at read
    split at read
    · rename_i between
      cases read
      have low : 48 ≤ c.toNat := between.1
      have high : c.toNat ≤ 57 := between.2
      have offset : '0'.toNat = 48 := rfl
      refine ⟨by omega, ?_⟩
      rw [← Char.ofNat_toNat c, offset]
      generalize c.toNat = code at low high ⊢
      interval_cases code <;> rfl
    · cases read
  · rintro ⟨small, rfl⟩
    interval_cases d <;> rfl

/-- Digits are read one after the other, each counting ten times less than the one before. -/
theorem digitsFrom?_eq_some_iff {value total : Nat} {cs : List Char} :
    digitsFrom? value cs = some total ↔
      ∃ digits : List Nat, (∀ d ∈ digits, d < 10) ∧ cs = digits.map Nat.digitChar ∧
        total = digits.foldl (fun value d => d + 10 * value) value := by
  induction cs generalizing value with
  | nil => simp [digitsFrom?, eq_comm]
  | cons c rest ih =>
    constructor
    · intro read
      simp only [digitsFrom?] at read
      split at read
      · rename_i d first
        obtain ⟨small, rfl⟩ := digit?_eq_some_iff.mp first
        obtain ⟨digits, below, rfl, rfl⟩ := ih.mp read
        exact ⟨d :: digits, by simpa using ⟨small, below⟩, rfl, by simp [Nat.add_comm]⟩
      · cases read
    · rintro ⟨digits, below, same, rfl⟩
      obtain ⟨d, digits, rfl, rfl, rfl⟩ := List.map_eq_cons_iff.mp same.symm
      obtain ⟨small, below⟩ := List.forall_mem_cons.mp below
      simp only [digitsFrom?, digit?_eq_some_iff.mpr ⟨small, rfl⟩]
      exact ih.mpr ⟨digits, below, rfl, by simp [Nat.add_comm]⟩

theorem digits?_eq_some_iff {cs : List Char} {value : Nat} :
    digits? cs = some value ↔ Decimal cs value := by
  have total (digits : List Nat) :
      Nat.ofDigits 10 digits.reverse = digits.foldl (fun value d => d + 10 * value) 0 := by
    rw [Nat.ofDigits_eq_foldr, List.foldr_reverse]
    rfl
  simp only [digits?, Decimal, total]
  cases cs with
  | nil => simp +contextual [eq_comm]
  | cons c rest =>
    rw [List.isEmpty_cons, if_neg Bool.false_ne_true, digitsFrom?_eq_some_iff]
    constructor
    · rintro ⟨digits, below, same, rfl⟩
      refine ⟨digits, ?_, below, same, rfl⟩
      rintro rfl
      cases same
    · rintro ⟨digits, -, rest⟩
      exact ⟨digits, rest⟩

/-- Digits do not start with a sign. -/
theorem Decimal.head_ne_sign {c : Char} {rest : List Char} {value : Nat}
    (decimal : Decimal (c :: rest) value) : c ≠ '+' ∧ c ≠ '-' := by
  obtain ⟨digits, -, below, same, -⟩ := decimal
  obtain ⟨d, digits, rfl, rfl, -⟩ := List.map_eq_cons_iff.mp same.symm
  have small := (List.forall_mem_cons.mp below).1
  interval_cases d <;> decide

theorem withoutPlus_of_decimal {cs : List Char} {value : Nat} (decimal : Decimal cs value) :
    withoutPlus cs = cs := by
  unfold withoutPlus
  split
  · exact absurd rfl decimal.head_ne_sign.1
  · rfl

/-- What is left without a plus sign are digits if the text is digits with or without one. -/
theorem decimal_withoutPlus_iff {cs : List Char} {value : Nat} :
    Decimal (withoutPlus cs) value ↔
      Decimal cs value ∨ ∃ rest, cs = '+' :: rest ∧ Decimal rest value := by
  constructor
  · intro decimal
    unfold withoutPlus at decimal
    split at decimal
    · rename_i rest
      exact .inr ⟨rest, rfl, decimal⟩
    · exact .inl decimal
  · rintro (decimal | ⟨rest, rfl, decimal⟩)
    · rwa [withoutPlus_of_decimal decimal]
    · exact decimal

/-! ## Numerals -/

/-- Unsigned numerals are read, and nothing else is. -/
theorem unsigned?_eq_some_iff {cs : List Char} {value : Nat} :
    unsigned? cs = some value ↔ Unsigned cs value := by
  rw [unsigned?, Option.filter_eq_some_iff, digits?_eq_some_iff, decimal_withoutPlus_iff,
    decide_eq_true_iff]
  constructor
  · rintro ⟨decimal | ⟨rest, rfl, decimal⟩, fits⟩
    · exact .bare decimal fits
    · exact .plus decimal fits
  · rintro (⟨decimal, fits⟩ | ⟨decimal, fits⟩)
    · exact ⟨.inl decimal, fits⟩
    · exact ⟨.inr ⟨_, rfl, decimal⟩, fits⟩

theorem integer?_eq_some_iff {cs : List Char} {x : Int} :
    integer? cs = some x ↔
      (∃ value : Nat, Decimal (withoutPlus cs) value ∧ x = value) ∨
        ∃ (rest : List Char) (value : Nat), cs = '-' :: rest ∧ Decimal rest value ∧ x = -value := by
  unfold integer?
  split
  · rename_i rest
    have signed (value : Nat) : ¬ Decimal (withoutPlus ('-' :: rest)) value :=
      fun decimal => absurd rfl (Decimal.head_ne_sign (c := '-') decimal).2
    simp only [Option.map_eq_some_iff, digits?_eq_some_iff, signed, false_and, exists_false, false_or]
    constructor
    · rintro ⟨value, decimal, rfl⟩
      exact ⟨rest, value, rfl, decimal, rfl⟩
    · rintro ⟨_, value, ⟨⟩, decimal, rfl⟩
      exact ⟨value, decimal, rfl⟩
  · rename_i unsigned
    simp only [Option.map_eq_some_iff, digits?_eq_some_iff]
    constructor
    · rintro ⟨value, decimal, rfl⟩
      exact .inl ⟨value, decimal, rfl⟩
    · rintro (⟨value, decimal, rfl⟩ | ⟨rest, _, rfl, _⟩)
      · exact ⟨value, decimal, rfl⟩
      · exact absurd rfl (unsigned rest)

/-- Signed numerals are read, and nothing else is. -/
theorem signed?_eq_some_iff {cs : List Char} {x : Int} : signed? cs = some x ↔ Signed cs x := by
  have least : Int64.minValue.toInt = -2 ^ 63 := rfl
  have greatest : Int64.maxValue.toInt = 2 ^ 63 - 1 := rfl
  rw [signed?, Option.filter_eq_some_iff, integer?_eq_some_iff, decide_eq_true_iff, least, greatest]
  constructor
  · rintro ⟨⟨value, decimal, rfl⟩ | ⟨rest, value, rfl, decimal, rfl⟩, fits⟩
    · rcases decimal_withoutPlus_iff.mp decimal with decimal | ⟨rest, rfl, decimal⟩
      · exact .bare decimal (by omega)
      · exact .plus decimal (by omega)
    · exact .minus decimal (by omega)
  · rintro (⟨decimal, fits⟩ | ⟨decimal, fits⟩ | ⟨decimal, fits⟩)
    · exact ⟨.inl ⟨_, decimal_withoutPlus_iff.mpr (.inl decimal), rfl⟩, by omega⟩
    · exact ⟨.inl ⟨_, decimal, rfl⟩, by omega⟩
    · exact ⟨.inr ⟨_, _, rfl, decimal, rfl⟩, by omega⟩

/-- A numeral has one value. -/
theorem Signed.unique {cs : List Char} {x y : Int} (one : Signed cs x) (other : Signed cs y) :
    x = y := by
  rw [← signed?_eq_some_iff] at one other
  exact Option.some.inj (one.symm.trans other)

/-- The values of numerals are determined by them. -/
theorem signed_forall₂_unique {words : List (List Char)} {xs ys : List Int}
    (one : List.Forall₂ Signed words xs) (other : List.Forall₂ Signed words ys) : xs = ys := by
  have unique : Relator.RightUnique Signed := fun _ _ _ one other => one.unique other
  exact unique.forall₂ one other

/-- The values of numerals may be cut where the numerals are. -/
theorem exists_of_signed_append {front back : List (List Char)} {xs : List Int}
    (numerals : List.Forall₂ Signed (front ++ back) xs) :
    ∃ ys zs, xs = ys ++ zs ∧ List.Forall₂ Signed front ys ∧ List.Forall₂ Signed back zs := by
  have before := List.forall₂_take front.length numerals
  have after := List.forall₂_drop front.length numerals
  rw [List.take_left] at before
  rw [List.drop_left] at after
  exact ⟨_, _, (List.take_append_drop _ xs).symm, before, after⟩

end ClauseLearning.Text
