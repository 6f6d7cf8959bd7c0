import ClauseLearning.Proofs.Trail.Coherent

/-! # Where the entries of a trail stand

A trail numbers its entries from the oldest on, and a stack lists them from the latest on. What was made
before the entry at a place is what lies below it on the stack.
-/

namespace ClauseLearning.Trail

def HasValue (t : Trail) (var : Nat) : Prop := ∃ a ∈ t.entries.toList, a.var = var

/-- The assignments made before the one at a place, the latest one first. -/
def before (t : Trail) (place : Nat) : List Assignment := (t.entries.toList.take place).reverse

section Places
variable {t : Trail} {a b : Assignment} {below : List Assignment} {place var : Nat}

theorem hasValue_iff : t.HasValue var ↔ ∃ a ∈ t.stack, a.var = var := by
  simp [HasValue, stack]

theorem not_hasValue_iff : ¬ t.HasValue var ↔ ∀ a ∈ t.stack, a.var ≠ var := by
  simp [HasValue, stack]

theorem mem_before_iff : b ∈ t.before place ↔ ∃ earlier < place, t.entries[earlier]? = some b := by
  rw [before, List.mem_reverse, List.mem_iff_getElem?]
  constructor
  · rintro ⟨earlier, found⟩
    rw [List.getElem?_take] at found
    split at found
    · rename_i within
      exact ⟨earlier, within, by rwa [← Array.getElem?_toList]⟩
    · cases found
  · rintro ⟨earlier, within, found⟩
    exact ⟨earlier, by rw [List.getElem?_take_of_lt within, Array.getElem?_toList, found]⟩

theorem before_succ (found : t.entries[place]? = some a) : t.before (place + 1) = a :: t.before place := by
  rw [← Array.getElem?_toList] at found
  rw [before, List.take_add_one, found, Option.toList_some, List.reverse_concat, before]

/-- The assignment at a place is on top of those made before it. -/
theorem suffix_of_getElem? (found : t.entries[place]? = some a) : a :: t.before place <:+ t.stack := by
  rw [← before_succ found, stack, before, List.reverse_suffix]
  exact List.take_prefix _ _

/-- What lies below an assignment on the stack says at which place the assignment was made. -/
theorem getElem?_of_suffix (suffix : a :: below <:+ t.stack) : t.entries[below.length]? = some a := by
  obtain ⟨above, same⟩ := suffix
  have entries := congrArg List.reverse same
  rw [stack, List.reverse_reverse] at entries
  rw [← Array.getElem?_toList, ← entries]
  simp

/-- What was made before a suffix of the stack ends is part of it. -/
theorem mem_of_suffix (suffix : below <:+ t.stack) (within : place < below.length)
    (found : t.entries[place]? = some b) : b ∈ below := by
  obtain ⟨above, same⟩ := suffix
  have entries := congrArg List.reverse same
  rw [stack, List.reverse_reverse, List.reverse_append] at entries
  rw [← Array.getElem?_toList, ← entries, List.getElem?_append_left (by simpa using within)] at found
  exact List.mem_reverse.mp (List.mem_of_getElem? found)

/-- The entries in a lower part of the stack are those at the places below its length. -/
theorem Coherent.mem_suffix_iff (coherent : t.Coherent) (suffix : below <:+ t.stack)
    (found : t.entries[place]? = some b) : b ∈ below ↔ place < below.length := by
  refine ⟨fun member => ?_, fun within => mem_of_suffix suffix within found⟩
  obtain ⟨lower, shorter⟩ := exists_suffix_of_mem member
  have found' := getElem?_of_suffix (shorter.trans suffix)
  have same := (coherent.placed found).2.symm.trans (coherent.placed found').2
  rw [Option.some.inj same]
  exact shorter.length_le

end Places

end ClauseLearning.Trail
