/-! # Exchanging two places of a list

`exchange xs i j` is the list `xs` with the entries at `i` and `j` interchanged. A place outside the
list leaves it as it is. The result is always a permutation of the list it started from.
-/

namespace ClauseLearning

/-- The list with the entries at two places interchanged. -/
def exchange {α : Type} (xs : List α) (i j : Nat) : List α :=
  match xs[i]?, xs[j]? with
  | some x, some y => (xs.set i y).set j x
  | _, _ => xs

@[simp] theorem length_exchange {α : Type} (xs : List α) (i j : Nat) :
    (exchange xs i j).length = xs.length := by
  unfold exchange
  split <;> simp

/-- Exchanging two places only reorders a list. -/
theorem exchange_perm {α : Type} (xs : List α) (i j : Nat) : (exchange xs i j).Perm xs := by
  unfold exchange
  split
  · rename_i x y atI atJ
    obtain ⟨iInBounds, rfl⟩ := List.getElem?_eq_some_iff.mp atI
    obtain ⟨jInBounds, rfl⟩ := List.getElem?_eq_some_iff.mp atJ
    exact List.set_set_perm iInBounds jInBounds
  · exact .refl _

end ClauseLearning
