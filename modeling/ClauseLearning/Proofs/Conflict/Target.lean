import ClauseLearning.Conflict.Analysis
import ClauseLearning.Proofs.Trail.InUse
import Mathlib.Logic.Equiv.Basic

/-! # The level to return to

The literals of a learned clause behind the first one are ranked by the levels at which their variables
were assigned, an unassigned variable counting as of level zero. The search returns to the highest rank.
The first literal of that rank changes places with the second literal of the clause, and nothing else
moves.
-/

namespace ClauseLearning

/-- The level at which the variable of a literal was assigned, or zero if it was not. -/
def rankOn (stack : List Assignment) (l : Lit) : Nat := (levelOn stack l.var).getD 0

/-- Of the literals behind the first one, the first of the highest rank has changed places with the second
literal of the list. -/
structure Promoted (rank : Lit → Nat) (given : List Lit) (highest : Nat) (chosen : List Lit) : Prop where
  perm : chosen.Perm given
  head?_eq : chosen.head? = given.head?
  highest_eq : highest = (given.tail.map rank).max?.getD 0
  /-- The second place has changed with the first place of the highest rank. -/
  second : ∃ place ≥ 1, (∀ i : Nat, chosen[i]? = given[Equiv.swap 1 place i]?) ∧
    (2 ≤ given.length → ∃ l, chosen[1]? = some l ∧ rank l = highest ∧
      ∀ earlier < place, 1 ≤ earlier → ∀ other, given[earlier]? = some other → rank other < highest)

section Greatest

/-- The number found is the greatest one, or the one to start with if none is greater. -/
theorem snd_firstGreatest (levels : List Nat) (place : Nat) (best : Nat × Nat) :
    (firstGreatest levels place best).2 = levels.foldl max best.2 := by
  induction levels generalizing place best with
  | nil => rfl
  | cons x rest ih =>
    rw [firstGreatest, ih, List.foldl_cons]
    congr 1
    split <;> omega

/-- It is the one to start with, or it stands at its place and the numbers before it are smaller. -/
theorem firstGreatest_found (levels : List Nat) (place : Nat) (best : Nat × Nat) :
    firstGreatest levels place best = best ∨
      ∃ offset : Nat, levels[offset]? = some (firstGreatest levels place best).2 ∧
        (firstGreatest levels place best).1 = place + offset ∧
        best.2 < (firstGreatest levels place best).2 ∧
        ∀ earlier < offset, ∀ x, levels[earlier]? = some x → x < (firstGreatest levels place best).2 := by
  induction levels generalizing place best with
  | nil => exact .inl rfl
  | cons x rest ih =>
    have found := ih (place + 1) (if best.2 < x then (place, x) else best)
    rw [firstGreatest]
    by_cases greater : best.2 < x
    · simp only [greater, if_true] at found ⊢
      rcases found with same | ⟨offset, value, position, beats, smaller⟩
      · rw [same]
        exact .inr ⟨0, rfl, rfl, greater, nofun⟩
      · refine .inr ⟨offset + 1, value, by omega, by omega, ?_⟩
        rintro (_ | earlier) before y there
        · obtain rfl : x = y := by simpa using there
          exact beats
        · exact smaller earlier (by omega) y there
    · simp only [greater, if_false] at found ⊢
      rcases found with same | ⟨offset, value, position, beats, smaller⟩
      · exact .inl same
      · refine .inr ⟨offset + 1, value, by omega, beats, ?_⟩
        rintro (_ | earlier) before y there
        · obtain rfl : x = y := by simpa using there
          omega
        · exact smaller earlier (by omega) y there

/-- Nothing is smaller than zero, so a search that starts from zero finds the first greatest number. -/
theorem exists_place_firstGreatest {levels : List Nat} (filled : levels ≠ []) (place : Nat) :
    ∃ offset : Nat, levels[offset]? = some (firstGreatest levels place (place, 0)).2 ∧
      (firstGreatest levels place (place, 0)).1 = place + offset ∧
      ∀ earlier < offset, ∀ x, levels[earlier]? = some x →
        x < (firstGreatest levels place (place, 0)).2 := by
  rcases firstGreatest_found levels place (place, 0) with same | ⟨offset, value, position, -, smaller⟩
  · have greatest := snd_firstGreatest levels place (place, 0)
    obtain ⟨x, rest, rfl⟩ := List.exists_cons_of_ne_nil filled
    rw [same, List.foldl_max] at greatest
    have bound : x ≤ (x :: rest).max?.getD 0 := List.le_max?_getD_of_mem (List.mem_cons_self ..)
    refine ⟨0, ?_, by rw [same, Nat.add_zero], nofun⟩
    rw [same, List.getElem?_cons_zero, Option.some.injEq]
    simp only at greatest
    omega
  · exact ⟨offset, value, position, smaller⟩

end Greatest

/-- Two places within a list change their entries. -/
theorem getElem?_exchange {α : Type} {xs : List α} {i j : Nat} (left : i < xs.length)
    (right : j < xs.length) (k : Nat) : (exchange xs i j)[k]? = xs[Equiv.swap i j k]? := by
  rw [exchange, List.getElem?_eq_getElem left, List.getElem?_eq_getElem right]
  simp only [List.getElem?_set, List.length_set, left, right, if_true]
  by_cases first : k = i
  · subst first
    rw [Equiv.swap_apply_left, List.getElem?_eq_getElem right, if_pos rfl]
    split <;> simp_all
  · by_cases second : k = j
    · subst second
      rw [Equiv.swap_apply_right, if_pos rfl, List.getElem?_eq_getElem left]
    · rw [Equiv.swap_apply_of_ne_of_ne first second, if_neg (Ne.symm second), if_neg (Ne.symm first)]

namespace Promoted
variable {rank : Lit → Nat} {given chosen lower : List Lit} {first : Lit} {highest : Nat}

/-- With fewer than two literals there is nothing to choose from. -/
theorem of_short (short : given.length < 2) : Promoted rank given 0 given := by
  refine ⟨.refl _, rfl, ?_, 1, Nat.le_refl 1, by simp, fun long => absurd short (Nat.not_lt.mpr long)⟩
  have alone : given.tail = [] := List.eq_nil_of_length_eq_zero (by rw [List.length_tail]; omega)
  rw [alone]
  rfl

/-- Otherwise the first greatest of the ranks says what to exchange. -/
theorem exchanged (rank : Lit → Nat) (long : 2 ≤ given.length) :
    Promoted rank given (firstGreatest (given.tail.map rank) 1 (1, 0)).2
      (exchange given 1 (firstGreatest (given.tail.map rank) 1 (1, 0)).1) := by
  have filled : given.tail.map rank ≠ [] := by
    rw [← List.length_pos_iff]
    simp
    omega
  have greatest := snd_firstGreatest (given.tail.map rank) 1 (1, 0)
  rw [List.foldl_max, Nat.zero_max] at greatest
  obtain ⟨offset, value, position, smaller⟩ := exists_place_firstGreatest filled 1
  rw [position]
  generalize (firstGreatest (given.tail.map rank) 1 (1, 0)).2 = highest at *
  rw [List.getElem?_map, List.getElem?_tail, Nat.add_comm] at value
  obtain ⟨promoted, there, ranked⟩ := Option.map_eq_some_iff.mp value
  obtain ⟨within, -⟩ := List.getElem?_eq_some_iff.mp there
  have moves := getElem?_exchange long within
  refine ⟨exchange_perm _ _ _, ?_, greatest, 1 + offset, Nat.le_add_right 1 offset, moves, ?_⟩
  · rw [List.head?_eq_getElem?, List.head?_eq_getElem?, moves,
      Equiv.swap_apply_of_ne_of_ne Nat.zero_ne_one (by omega)]
  · intro _
    refine ⟨promoted, by rw [moves, Equiv.swap_apply_left, there], ranked, ?_⟩
    intro earlier before behind other listed
    obtain ⟨offset', rfl⟩ : ∃ offset', earlier = offset' + 1 := ⟨earlier - 1, by omega⟩
    refine smaller offset' (by omega) (rank other) ?_
    rw [List.getElem?_map, List.getElem?_tail, listed, Option.map_some]

/-- The first literal stays, and the literal behind it is of the highest rank of those that follow. -/
theorem exists_rest (promoted : Promoted rank (first :: lower) highest chosen) :
    ∃ rest, chosen = first :: rest ∧ rest.Perm lower ∧ (rest = [] → highest = 0) ∧
      (∀ l ∈ rest, rank l ≤ highest) ∧ ∀ l, rest.head? = some l → rank l = highest := by
  obtain ⟨perm, head, greatest, place, -, -, second⟩ := promoted
  obtain ⟨rest, rfl⟩ : ∃ rest, chosen = first :: rest := List.head?_eq_some_iff.mp head
  have perm : rest.Perm lower := perm.cons_inv
  refine ⟨rest, rfl, perm, ?_, fun l member => ?_, fun l there => ?_⟩
  · rintro rfl
    rw [greatest, List.tail_cons, List.nil_perm.mp perm]
    rfl
  · rw [greatest]
    exact List.le_max?_getD_of_mem (List.mem_map_of_mem (perm.mem_iff.mp member))
  · obtain ⟨others, rfl⟩ := List.head?_eq_some_iff.mp there
    have long : 2 ≤ (first :: lower).length := by simp [← perm.length_eq]
    obtain ⟨l', found, ranked, -⟩ := second long
    obtain rfl : l = l' := by simpa using found
    exact ranked

end Promoted

namespace Trail
variable {t : Trail}

/-- The levels of literals are looked up. -/
theorem Coherent.levelsOf_eq (coherent : t.Coherent) {lits : List Lit}
    (inRange : ∀ l ∈ lits, l.var < t.varCount) : levelsOf t lits = .ok (lits.map (rankOn t.stack)) := by
  induction lits with
  | nil => rfl
  | cons l rest ih =>
    rw [levelsOf, coherent.levelOf_eq (inRange l (List.mem_cons_self ..)), ok_bind,
      ih fun other member => inRange other (List.mem_cons_of_mem _ member)]
    rfl

/-- The literals come out with one of the highest level behind the first one. -/
theorem Coherent.backtrackTarget_yields (coherent : t.Coherent) (given : List Lit)
    (inRange : ∀ l ∈ given.tail, l.var < t.varCount) :
    Yields (backtrackTarget t given) fun (highest, chosen) =>
      Promoted (rankOn t.stack) given highest chosen := by
  rw [backtrackTarget]
  split
  · rename_i short
    exact yields_pure_iff.mpr (.of_short short)
  · rename_i long
    rw [coherent.levelsOf_eq inRange]
    exact yields_pure_iff.mpr (.exchanged _ (Nat.le_of_not_lt long))

/-- On a trail in use, the level to return to is the highest one of the literals behind the first, and the
first literal of that level changes places with the second. -/
theorem backtrackTarget_promotes {vars : Nat} (inUse : InUse vars t) {given : List Lit}
    (inRange : ∀ l ∈ given, l.var < vars) :
    ∃ highest chosen, backtrackTarget t given = .ok (highest, chosen) ∧
      Promoted (rankOn t.stack) given highest chosen := by
  obtain ⟨coherent, rfl⟩ := inUse.coherent
  obtain ⟨⟨highest, chosen⟩, same, promoted⟩ :=
    coherent.backtrackTarget_yields given fun l member => inRange l (List.mem_of_mem_tail member)
  exact ⟨highest, chosen, same, promoted⟩

/-- Six literals, the second one unassigned, with levels one, two, zero and two behind it. -/
def tied : List Lit := [⟨4, true⟩, ⟨5, false⟩, ⟨1, true⟩, ⟨2, true⟩, ⟨0, false⟩, ⟨3, false⟩]

theorem backtrackTarget_promotes_tied : ∃ t : Trail, InUse 6 t ∧ (∀ l ∈ tied, l.var < 6) ∧
    tied.map (rankOn t.stack) = [3, 0, 1, 2, 0, 2] ∧
    ∃ chosen, backtrackTarget t tied = .ok (2, chosen) ∧ Promoted (rankOn t.stack) tied 2 chosen ∧
      chosen = [⟨4, true⟩, ⟨2, true⟩, ⟨1, true⟩, ⟨5, false⟩, ⟨0, false⟩, ⟨3, false⟩] := by
  obtain ⟨t, inUse, levels, computed⟩ : ∃ t : Trail, InUse 6 t ∧
      tied.map (rankOn t.stack) = [3, 0, 1, 2, 0, 2] ∧ backtrackTarget t tied =
        .ok (2, [⟨4, true⟩, ⟨2, true⟩, ⟨1, true⟩, ⟨5, false⟩, ⟨0, false⟩, ⟨3, false⟩]) := by
    have start : InUse 6 (.empty 6) := .empty
    have first := (start.imply ⟨0, true⟩ 8 rfl).choose ⟨1, false⟩ rfl
    have second := (first.choose ⟨2, false⟩ rfl).imply ⟨3, true⟩ 9 rfl
    exact ⟨_, second.choose ⟨4, false⟩ rfl, by decide +kernel, by decide +kernel⟩
  have inRange : ∀ l ∈ tied, l.var < 6 := by decide
  obtain ⟨highest, chosen, same, promoted⟩ := backtrackTarget_promotes inUse inRange
  cases computed.symm.trans same
  exact ⟨t, inUse, inRange, levels, _, same, promoted, rfl⟩

end Trail

end ClauseLearning
