import ClauseLearning.Proofs.Checked

/-! # Tables filled entry by entry

A table over variables is changed at the variables of a list, one after the other. What it holds
afterwards at a variable of the list is known as long as all entries for that variable agree; the
others keep what they held.
-/

namespace ClauseLearning

variable {α β : Type}

/-- The table with an entry for each element of a list, those outside of the table aside. -/
def fill (key : β → Nat) (value : β → α) (xs : List β) (table : Array α) : Array α :=
  xs.foldl (fun table x => table.setIfInBounds (key x) (value x)) table

section Fill
variable {key : β → Nat} {value : β → α} {xs : List β} {table : Array α} {place : Nat} {entry : α}

@[simp] theorem size_fill : (fill key value xs table).size = table.size := by
  induction xs generalizing table with
  | nil => rfl
  | cons x xs ih => exact ih.trans Array.size_setIfInBounds

/-- A place that no element has stays as it is. -/
theorem getElem?_fill_of_absent (absent : ∀ x ∈ xs, key x ≠ place) :
    (fill key value xs table)[place]? = table[place]? := by
  induction xs generalizing table with
  | nil => rfl
  | cons x xs ih =>
    have later : ∀ y ∈ xs, key y ≠ place := fun y member => absent y (List.mem_cons_of_mem _ member)
    rw [fill, List.foldl_cons]
    exact (ih later).trans (Array.getElem?_setIfInBounds_ne (absent x (List.mem_cons_self ..)))

/-- A place that some element has holds its value if all elements with that place agree. -/
theorem getElem?_fill_of_present (present : ∃ x ∈ xs, key x = place)
    (agrees : ∀ x ∈ xs, key x = place → value x = entry) (inBounds : place < table.size) :
    (fill key value xs table)[place]? = some entry := by
  induction xs generalizing table with
  | nil => simp at present
  | cons x xs ih =>
    have inBounds' : place < (table.setIfInBounds (key x) (value x)).size := by simpa using inBounds
    rw [fill, List.foldl_cons]
    by_cases later : ∃ y ∈ xs, key y = place
    · exact ih later (fun y member => agrees y (List.mem_cons_of_mem _ member)) inBounds'
    · obtain ⟨y, member, same⟩ := present
      obtain rfl : y = x :=
        (List.mem_cons.mp member).resolve_right fun member => later ⟨y, member, same⟩
      have absent : ∀ y ∈ xs, key y ≠ place := fun y member same => later ⟨y, member, same⟩
      refine (getElem?_fill_of_absent absent).trans ?_
      rw [← same, Array.getElem?_setIfInBounds_self_of_lt (same ▸ inBounds),
        agrees y (List.mem_cons_self ..) same]

end Fill

end ClauseLearning
