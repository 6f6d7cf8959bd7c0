import ClauseLearning.Proofs.Conflict.Analysis
import Mathlib.Algebra.Group.Nat.Defs

/-! # A weight that grows with every turn of the search

The stack is read as a numeral with one ternary digit for each variable, the lowest assignment first:
one for a decision, two for a forced literal, zero where there is no assignment. Assignments on top
only add to the weight of a stack and stay within its span, the weight of its last digit place. A
return to a lower level gives up digits, but the literal forced there takes the place of a decision, so
that the weight is greater than before the conflict all the same.
-/

namespace ClauseLearning

def Assignment.digit (a : Assignment) : Nat := if a.isDecision then 1 else 2

/-- What a unit in the lowest digit place in use is worth, over a number of variables. -/
def span (vars : Nat) (stack : List Assignment) : Nat := 3 ^ (vars - stack.length)

/-- The stack as a ternary numeral. -/
def weight (vars : Nat) : List Assignment → Nat
  | [] => 0
  | a :: below => weight vars below + a.digit * span vars (a :: below)

section Weight
variable {vars k : Nat} {a : Assignment} {stack below : List Assignment}

theorem span_pos (vars : Nat) (stack : List Assignment) : 0 < span vars stack := Nat.pow_pos (by omega)

theorem span_below (within : (a :: below).length ≤ vars) :
    span vars below = 3 * span vars (a :: below) := by
  simp only [List.length_cons] at within
  have split : vars - below.length = vars - (below.length + 1) + 1 := by omega
  simp only [span, List.length_cons]
  rw [split, Nat.pow_succ, Nat.mul_comm]

/-- Assignments on top make a stack heavier. -/
theorem weight_le_of_suffix (suffix : below <:+ stack) : weight vars below ≤ weight vars stack := by
  obtain ⟨above, rfl⟩ := suffix
  induction above with
  | nil => exact Nat.le_refl _
  | cons a above ih =>
    simp only [List.cons_append, weight]
    omega

/-- Assignments on top stay within the span. -/
theorem weight_add_span_le (suffix : below <:+ stack) (within : stack.length ≤ vars) :
    weight vars stack + span vars stack ≤ weight vars below + span vars below := by
  obtain ⟨above, rfl⟩ := suffix
  induction above with
  | nil => exact Nat.le_refl _
  | cons a above ih =>
    have bound := ih (by simp only [List.cons_append, List.length_cons] at within; omega)
    have spans : span vars (above ++ below) = 3 * span vars (a :: (above ++ below)) :=
      span_below within
    have digit : a.digit * span vars (a :: (above ++ below)) ≤
        2 * span vars (a :: (above ++ below)) := by
      refine Nat.mul_le_mul_right _ ?_
      simp only [Assignment.digit]
      split <;> omega
    simp only [List.cons_append, weight]
    omega

theorem weight_lt (within : stack.length ≤ vars) : weight vars stack < 3 ^ vars := by
  have bound := weight_add_span_le (List.nil_suffix (l := stack)) within
  have positive := span_pos vars stack
  simp only [weight, span, List.length_nil, Nat.sub_zero] at bound positive
  omega

/-- The weight of a stack with one more literal forced. -/
def weightForced (vars : Nat) (stack : List Assignment) : Nat :=
  weight vars stack + 2 * 3 ^ (vars - (stack.length + 1))

theorem weight_decision (decision : a.isDecision = true) :
    weight vars below < weight vars (a :: below) := by
  have positive := span_pos vars (a :: below)
  simp only [weight, Assignment.digit, decision, if_true]
  omega

/-- A stack with forced literals on top is at least as heavy as with a single one. -/
theorem weightForced_le {added : List Assignment} (nonempty : added ≠ [])
    (forced : ∀ a ∈ added, a.isDecision = false) :
    weightForced vars below ≤ weight vars (added ++ below) := by
  induction added with
  | nil => exact (nonempty rfl).elim
  | cons a added ih =>
    have here := forced a (List.mem_cons_self ..)
    have digit : a.digit = 2 := by simp [Assignment.digit, here]
    by_cases last : added = []
    · subst last
      simp [weightForced, weight, digit, span]
    · have lower := ih last fun b member => forced b (List.mem_cons_of_mem _ member)
      refine Nat.le_trans lower (weight_le_of_suffix ?_)
      exact List.suffix_cons a _

/-- The lowest assignment above a level is the decision that ended the level. -/
theorem Stacked.exists_decision_cut (stacked : Stacked stack) (lower : k < height stack) :
    ∃ a, a.isDecision = true ∧ a :: ClauseLearning.cut k stack <:+ stack := by
  induction stacked with
  | nil => simp [height] at lower
  | @cons a below stacked fresh level ih =>
    rw [cut_cons_of_lt lower]
    rcases Nat.lt_or_ge k (height below) with inside | bottom
    · obtain ⟨b, decision, suffix⟩ := ih inside
      exact ⟨b, decision, suffix.trans (List.suffix_cons a below)⟩
    · rw [stacked.cut_eq_self bottom]
      refine ⟨a, ?_, List.suffix_refl _⟩
      simp only [height] at lower
      cases reason : a.reason with
      | decision => simp [Assignment.isDecision, reason]
      | implied id =>
        simp only [reason, nextLevel] at level
        omega

/-- A return to a lower level, with a literal forced there, makes a heavier stack. -/
theorem Stacked.weight_lt_weightForced (stacked : Stacked stack) (lower : k < height stack)
    (within : stack.length ≤ vars) :
    weight vars stack < weightForced vars (ClauseLearning.cut k stack) := by
  obtain ⟨a, decision, suffix⟩ := stacked.exists_decision_cut lower
  have positive := span_pos vars stack
  have bound := weight_add_span_le suffix within
  simp only [weight, Assignment.digit, decision, if_true, span, List.length_cons] at bound positive
  simp only [weightForced]
  omega

end Weight

end ClauseLearning
