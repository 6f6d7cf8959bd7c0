import ClauseLearning.Proofs.Tables
import ClauseLearning.Proofs.Trail.Operations

/-! # Going back to a level

A return to level `k` splits the stack in two: what is taken back, all of it above the level, and the
cut, which is left as it was before anything above the level was assigned. The cursor of watch-list
propagation is described here, too, by the part of the stack that it has passed.
-/

namespace ClauseLearning.Trail

/-- The assignments that watch-list propagation has passed, the latest one first. -/
def processed (t : Trail) : List Assignment := (t.entries.toList.take t.cursor).reverse

/-- Taking back assignments removes the values of their variables and no other. -/
private theorem clearValues_getElem? (removed : List Assignment) (values : Array TruthValue)
    (var : Nat) :
    (removed.foldl (fun values a => values.setIfInBounds a.var .unknown) values)[var]? =
      if ∃ a ∈ removed, a.var = var then values[var]?.map fun _ => .unknown else values[var]? := by
  change (fill Assignment.var (fun _ => TruthValue.unknown) removed values)[var]? = _
  split
  · rename_i present
    by_cases inBounds : var < values.size
    · rw [getElem?_fill_of_present present (fun _ _ _ => rfl) inBounds]
      simp [inBounds]
    · rw [Array.getElem?_eq_none (by simpa using inBounds)]
      simp [inBounds]
  · rename_i absent
    exact getElem?_fill_of_absent fun a member same => absent ⟨a, member, same⟩

@[simp] private theorem size_clearValues (removed : List Assignment) (values : Array TruthValue) :
    (removed.foldl (fun values a => values.setIfInBounds a.var .unknown) values).size =
      values.size := size_fill

namespace Coherent
variable {t : Trail} {a : Assignment} {k : Nat}

theorem levelStarts_getElem? (coherent : t.Coherent) (within : k < height t.stack) :
    t.levelStarts[k + 1]? = some (cut k t.stack).length := by
  rw [← Array.getElem?_toList, coherent.starts]
  exact coherent.stacked.levelStartsOf_getElem? within

theorem levelStarts_getElem?_none (coherent : t.Coherent) (within : height t.stack ≤ k) :
    t.levelStarts[k + 1]? = none := by
  rw [← Array.getElem?_toList, coherent.starts]
  apply List.getElem?_eq_none
  rw [coherent.stacked.length_levelStartsOf]
  omega

/-- The cut is what the first assignments of the list amount to. -/
theorem reverse_take (k : Nat) :
    (t.entries.toList.take (cut k t.stack).length).reverse = cut k t.stack := by
  have suffix := List.suffix_iff_eq_drop.mp (cut_suffix k t.stack)
  rw [List.reverse_take]
  conv_rhs => rw [suffix]
  simp [stack]

/-- What a return takes back, on top of what it leaves, is the stack before. -/
theorem reverse_above_append (coherent : t.Coherent) (k : Nat) :
    (t.above k).reverse ++ cut k t.stack = t.stack := by
  rcases Nat.lt_or_ge k (height t.stack) with within | within
  · rw [Trail.above, coherent.levelStarts_getElem? within]
    calc (t.entries.toList.drop (cut k t.stack).length).reverse ++ cut k t.stack
        = (t.entries.toList.drop (cut k t.stack).length).reverse ++
            (t.entries.toList.take (cut k t.stack).length).reverse := by rw [reverse_take k]
      _ = t.stack := by rw [← List.reverse_append, List.take_append_drop, stack]
  · rw [Trail.above, coherent.levelStarts_getElem?_none within, coherent.stacked.cut_eq_self within]
    rfl

/-- Exactly what lies above the level is taken back. -/
theorem mem_above_iff (coherent : t.Coherent) :
    a ∈ t.above k ↔ a ∈ t.stack ∧ k < a.level := by
  have split := coherent.reverse_above_append k
  have stacked := coherent.stacked
  constructor
  · intro removed
    have member : a ∈ t.stack := by
      rw [← split]
      exact List.mem_append_left _ (List.mem_reverse.mpr removed)
    refine ⟨member, ?_⟩
    by_contra within
    have kept : a ∈ cut k t.stack := stacked.mem_cut_iff.mpr ⟨member, by omega⟩
    have vars := stacked.nodup_vars
    rw [← split, List.map_append] at vars
    exact (List.nodup_append.mp vars).2.2 a.var
      (List.mem_map_of_mem (List.mem_reverse.mpr removed)) a.var (List.mem_map_of_mem kept) rfl
  · rintro ⟨member, above⟩
    rw [← split] at member
    rcases List.mem_append.mp member with removed | kept
    · exact List.mem_reverse.mp removed
    · have within := (stacked.mem_cut_iff.mp kept).2
      omega

/-- An entry of a level at most `k` has the same place in the cut, read from below. -/
theorem getElem?_reverse_cut_iff (coherent : t.Coherent) {place : Nat} (within : a.level ≤ k) :
    (cut k t.stack).reverse[place]? = some a ↔ t.entries[place]? = some a := by
  have entries : t.entries.toList = (cut k t.stack).reverse ++ t.above k := by
    have split := congrArg List.reverse (coherent.reverse_above_append k)
    simpa [stack] using split.symm
  rw [← Array.getElem?_toList, entries]
  rcases Nat.lt_or_ge place (cut k t.stack).reverse.length with below | beyond
  · rw [List.getElem?_append_left below]
  · rw [List.getElem?_append_right beyond, List.getElem?_eq_none beyond]
    refine iff_of_false (by simp) fun found => ?_
    have higher := (coherent.mem_above_iff.mp (List.mem_of_getElem? found)).2
    omega

/-- The entries up to a level stay in place as long as the cut at that level only gets longer. -/
theorem getElem?_of_cut_suffix {t' : Trail} (coherent : t.Coherent) (coherent' : t'.Coherent)
    (kept : cut k t.stack <:+ cut k t'.stack) {place : Nat} (within : a.level ≤ k)
    (found : t.entries[place]? = some a) : t'.entries[place]? = some a := by
  rw [← coherent.getElem?_reverse_cut_iff within] at found
  rw [← coherent'.getElem?_reverse_cut_iff within]
  obtain ⟨later, same⟩ := List.reverse_prefix.mpr kept
  obtain ⟨below, -⟩ := List.getElem?_eq_some_iff.mp found
  rw [← same, List.getElem?_append_left below]
  exact found

/-- The entries that a return leaves are those of the cut, each at its place. -/
private theorem take_getElem? {place : Nat}
    (found : (t.entries.take (cut k t.stack).length)[place]? = some a) :
    t.entries[place]? = some a ∧ a ∈ cut k t.stack := by
  rw [Array.take_eq_extract, Array.getElem?_extract] at found
  split at found
  · rename_i bound
    rw [Nat.zero_add] at found
    refine ⟨found, ?_⟩
    rw [← reverse_take k, List.mem_reverse, List.mem_iff_getElem?]
    exact ⟨place, by rw [List.getElem?_take_of_lt (by omega), Array.getElem?_toList, found]⟩
  · cases found

/-- A variable that stays assigned is not among those taken back. -/
private theorem not_above_of_mem_cut (coherent : t.Coherent) (member : a ∈ cut k t.stack) :
    ¬ ∃ b ∈ t.above k, b.var = a.var := by
  rintro ⟨b, removed, same⟩
  obtain ⟨below, level⟩ := coherent.stacked.mem_cut_iff.mp member
  obtain ⟨above, higher⟩ := coherent.mem_above_iff.mp removed
  obtain rfl := coherent.stacked.eq_of_var_eq above below same
  omega

structure Returned (t : Trail) (k : Nat) (t' : Trail) : Prop where
  coherent : t'.Coherent
  stack_eq : t'.stack = cut k t.stack
  varCount_eq : t'.varCount = t.varCount
  cursor_eq : t'.cursor = min t.cursor (cut k t.stack).length

/-- A return to a level leaves the cut of the stack. -/
theorem backTo (coherent : t.Coherent) (k : Nat) : Returned t k (t.backTo k) := by
  rcases Nat.lt_or_ge k (height t.stack) with within | within
  · have start := coherent.levelStarts_getElem? within
    have shorter : (cut k t.stack).length ≤ t.entries.size := by
      simpa [size] using (cut_suffix k t.stack).length_le
    have stackEq : (t.backTo k).stack = cut k t.stack := by
      rw [← reverse_take k, Trail.backTo, start]
      simp [stack]
    rw [Trail.backTo, start] at stackEq ⊢
    simp only at stackEq ⊢
    refine ⟨⟨?_, ?_, ?_, ?_, ?_, ?_⟩, stackEq, ?_, ?_⟩
    · rw [stackEq]
      exact coherent.stacked.cut k
    · rw [stackEq, ← coherent.stacked.take_levelStartsOf (Nat.le_of_lt within), ← coherent.starts]
      simp
    · simpa [varCount] using coherent.positionCount
    · intro place a found
      obtain ⟨before, member⟩ := take_getElem? found
      simp only [clearValues_getElem?, coherent.not_above_of_mem_cut member, if_false]
      exact coherent.placed before
    · intro var value found assigned
      simp only [clearValues_getElem?] at found
      split at found
      · rename_i removed
        have unknown : value = .unknown := by
          obtain ⟨_, -, same⟩ := Option.map_eq_some_iff.mp found
          exact same.symm
        exact (assigned unknown).elim
      · rename_i stays
        obtain ⟨a, member, same⟩ := coherent.listed found assigned
        refine ⟨a, ?_, same⟩
        rw [stackEq, coherent.stacked.mem_cut_iff]
        refine ⟨member, ?_⟩
        by_contra above
        exact stays ⟨a, coherent.mem_above_iff.mpr ⟨member, by omega⟩, same⟩
    · exact Nat.min_le_right _ _
    · simp [varCount]
    · simp [Nat.min_eq_left shorter]
  · rw [Trail.backTo, coherent.levelStarts_getElem?_none within]
    refine ⟨coherent, (coherent.stacked.cut_eq_self within).symm, rfl, ?_⟩
    rw [coherent.stacked.cut_eq_self within, length_stack]
    exact (Nat.min_eq_left coherent.cursor_le).symm

end Coherent

section Cursor
variable {t t' : Trail} {a : Assignment} {l : Lit} {k : Nat}

theorem processed_suffix (t : Trail) : t.processed <:+ t.stack := by
  rw [processed, stack, List.reverse_suffix]
  exact List.take_prefix _ _

theorem processed_eq_stack (ended : t.size ≤ t.cursor) : t.processed = t.stack := by
  rw [processed, stack, List.take_of_length_le (by simpa [size] using ended)]

/-- Assignments on top of the stack are not passed unless the cursor moves. -/
theorem Coherent.processed_eq (coherent : t.Coherent) {added : List Assignment}
    (grown : t'.stack = added ++ t.stack) (still : t'.cursor = t.cursor) :
    t'.processed = t.processed := by
  have entries := congrArg List.reverse grown
  simp only [stack, List.reverse_append, List.reverse_reverse] at entries
  have bound : t.cursor ≤ t.entries.toList.length := coherent.cursor_le
  rw [processed, processed, still, entries, List.take_append_of_le_length bound]

/-- The cursor may stand anywhere within the assignments. -/
theorem Coherent.moveCursor (coherent : t.Coherent) {cursor : Nat} (bound : cursor ≤ t.size) :
    Trail.Coherent { t with cursor } :=
  ⟨coherent.stacked, coherent.starts, coherent.positionCount, coherent.placed, coherent.listed, bound⟩

theorem nextToPropagate_eq_none (ended : t.nextToPropagate = none) : t.size ≤ t.cursor := by
  simp only [nextToPropagate] at ended
  split at ended
  · cases ended
  · rename_i absent
    exact Array.getElem?_eq_none_iff.mp absent

/-- The cursor passes one assignment at a time, the one that it points to. -/
theorem Coherent.nextToPropagate_eq_some (coherent : t.Coherent)
    (next : t.nextToPropagate = some (l, t')) :
    t'.Coherent ∧ t'.stack = t.stack ∧ t'.varCount = t.varCount ∧ t'.cursor = t.cursor + 1 ∧
      ∃ a, a.lit = l ∧ t'.processed = a :: t.processed := by
  simp only [nextToPropagate] at next
  split at next
  · rename_i a found
    obtain ⟨rfl, rfl⟩ := Prod.mk.inj (Option.some.inj next)
    obtain ⟨inBounds, found⟩ := Array.getElem?_eq_some_iff.mp found
    refine ⟨coherent.moveCursor inBounds, rfl, rfl, rfl, a, rfl, ?_⟩
    simp [processed, List.take_succ_eq_append_getElem, inBounds, found]
  · cases next

theorem Coherent.skipPropagation (coherent : t.Coherent) : t.skipPropagation.Coherent :=
  coherent.moveCursor (Nat.le_refl _)

end Cursor

end ClauseLearning.Trail
