import ClauseLearning.Proofs.Branching.Candidates
import ClauseLearning.Proofs.Search.Loading

/-! # Preferred signs

The preferred sign of a variable starts out as configured. Decisions and learned clauses leave it alone,
and so do returns unless phases are saved: then the sign of each assignment that is taken back becomes the
preferred one of its variable.
-/

namespace ClauseLearning.Branching

structure KeepsSigns (b b' : Branching) : Prop where
  config_eq : b'.config = b.config
  polarity_eq : b'.polarity = b.polarity

section Changes
variable {b middle b' : Branching} {a : Assignment} {var : Nat} {lits : List Lit}
  {removed : List Assignment}

theorem KeepsSigns.refl (b : Branching) : b.KeepsSigns b := ⟨rfl, rfl⟩

theorem KeepsSigns.trans (first : b.KeepsSigns middle) (second : middle.KeepsSigns b') :
    b.KeepsSigns b' :=
  ⟨second.config_eq.trans first.config_eq, second.polarity_eq.trans first.polarity_eq⟩

theorem keepsSigns_of_pick {t : Trail} {choice : Option Lit} (picked : b.pick t = .ok (choice, b')) :
    b.KeepsSigns b' := by
  obtain ⟨chosen, left, queued, -, rfl, -⟩ := exists_of_pick picked
  exact ⟨rfl, rfl⟩

private theorem keepsSigns_of_bump (bumped : b.bump var = .ok b') : b.KeepsSigns b' := by
  obtain ⟨score, -, onward⟩ := Checked.bind_eq_ok_iff.mp bumped
  obtain ⟨scores, -, onward⟩ := Checked.bind_eq_ok_iff.mp onward
  obtain ⟨queued, -, onward⟩ := Checked.bind_eq_ok_iff.mp onward
  split at onward <;> cases onward <;> exact ⟨rfl, rfl⟩

private theorem keepsSigns_of_bumpAll (bumped : bumpAll lits b = .ok b') : b.KeepsSigns b' := by
  induction lits generalizing b with
  | nil =>
    cases bumped
    exact .refl _
  | cons l rest ih =>
    obtain ⟨middle, bumped, onward⟩ := Checked.bind_eq_ok_iff.mp bumped
    exact (keepsSigns_of_bump bumped).trans (ih onward)

/-- A learned clause raises scores and makes them decay, and that is all. -/
theorem keepsSigns_of_learn {decayed : Bool} (noted : b.learn lits = .ok (decayed, b')) :
    b.KeepsSigns b' := by
  obtain ⟨middle, bumped, onward⟩ := Checked.bind_eq_ok_iff.mp noted
  have first := keepsSigns_of_bumpAll bumped
  simp only at onward
  split at onward <;> cases onward <;> exact first.trans ⟨rfl, rfl⟩

/-- The preferred signs after assignments were taken back. -/
structure SavesSigns (b : Branching) (removed : List Assignment) (b' : Branching) : Prop where
  config_eq : b'.config = b.config
  polarity_eq : b'.polarity =
    if b.config.savePhases then fill Assignment.var Assignment.value removed b.polarity else b.polarity

private theorem savesSigns_of_release (released : b.release a = .ok b') : b.SavesSigns [a] b' := by
  obtain ⟨middle, saved, onward⟩ := Checked.bind_eq_ok_iff.mp released
  have first : b.SavesSigns [a] middle := by
    rw [savePhase] at saved
    split at saved
    · rename_i saves
      obtain ⟨polarity, stored, same⟩ := Checked.bind_eq_ok_iff.mp saved
      cases same
      obtain ⟨inBounds, rfl⟩ := store_eq_ok_iff.mp stored
      refine ⟨rfl, ?_⟩
      rw [if_pos saves, fill, List.foldl_cons, List.foldl_nil, Array.setIfInBounds, dif_pos inBounds]
    · rename_i saves
      cases saved
      exact ⟨rfl, (if_neg saves).symm⟩
  obtain ⟨queued, -, onward⟩ := Checked.bind_eq_ok_iff.mp onward
  split at onward
  · cases onward
    exact first
  · obtain ⟨table, -, same⟩ := Checked.bind_eq_ok_iff.mp onward
    cases same
    exact ⟨first.config_eq, first.polarity_eq⟩

theorem savesSigns_of_releaseAll (released : releaseAll removed b = .ok b') :
    b.SavesSigns removed b' := by
  induction removed generalizing b with
  | nil =>
    cases released
    exact ⟨rfl, by split <;> rfl⟩
  | cons a rest ih =>
    obtain ⟨middle, first, onward⟩ := Checked.bind_eq_ok_iff.mp released
    obtain ⟨configEq, polarityEq⟩ := savesSigns_of_release first
    obtain ⟨configEq', polarityEq'⟩ := ih onward
    refine ⟨configEq'.trans configEq, ?_⟩
    rw [polarityEq', polarityEq, configEq]
    split <;> rfl

/-- Unless phases are saved, the signs stay. -/
theorem SavesSigns.getElem?_of_not_saved (saves : b.SavesSigns removed b')
    (unsaved : b.config.savePhases = false) : b'.polarity[var]? = b.polarity[var]? := by
  rw [saves.polarity_eq, if_neg (by simp [unsaved])]

/-- The sign of a variable that no assignment is taken back of stays. -/
theorem SavesSigns.getElem?_of_absent (saves : b.SavesSigns removed b')
    (absent : ∀ a ∈ removed, a.var ≠ var) : b'.polarity[var]? = b.polarity[var]? := by
  rw [saves.polarity_eq]
  split
  · exact getElem?_fill_of_absent absent
  · rfl

/-- If phases are saved, the sign is that of the assignment taken back. -/
theorem SavesSigns.getElem?_of_mem (saves : b.SavesSigns removed b')
    (saved : b.config.savePhases = true) (member : a ∈ removed)
    (single : ∀ other ∈ removed, other.var = a.var → other = a) (inBounds : a.var < b.polarity.size) :
    b'.polarity[a.var]? = some a.value := by
  rw [saves.polarity_eq, if_pos saved]
  exact getElem?_fill_of_present ⟨a, member, rfl⟩
    (fun other listed same => congrArg Assignment.value (single other listed same)) inBounds

end Changes

end ClauseLearning.Branching

namespace ClauseLearning

/-- In how many of the clauses that are loaded, which are the contingent ones, the literal occurs. -/
def Formula.occurrences (f : Formula) (l : Lit) : Nat :=
  f.clauses.toList.countP fun lits => Contingent lits ∧ l ∈ lits

/-- Literals of clauses without repetitions occur as often as there are clauses with them. -/
theorem count_flatMap_eq_countP {clauses : List Clause} (distinct : ∀ c ∈ clauses, c.lits.Nodup)
    (l : Lit) : (clauses.flatMap Clause.lits).count l = clauses.countP (l ∈ ·.lits) := by
  induction clauses with
  | nil => rfl
  | cons c rest ih =>
    obtain ⟨first, others⟩ := List.forall_mem_cons.mp distinct
    rw [List.flatMap_cons, List.count_append, ih others, List.countP_cons, first.count, Nat.add_comm]
    simp

/-- The literals of what is loaded occur as often as in the contingent clauses. -/
theorem Loading.Sifted.count_eq {σ : Type} {f : Formula} {loading : Loading σ}
    (sifted : loading.Sifted f.clauses.toList) (l : Lit) :
    (loading.db.inputs.flatMap Clause.lits).count l = f.occurrences l := by
  have inputs : loading.db.inputs = loading.db.clauses.toList :=
    List.filter_eq_self.mpr fun c listed => by simp [sifted.unlearned c listed]
  have distinct : ∀ c ∈ loading.db.inputs, c.lits.Nodup := by
    intro c listed
    rw [inputs, sifted.clauses_eq] at listed
    obtain ⟨lits, -, rfl⟩ := List.mem_map.mp listed
    exact nodup_eraseDups lits
  rw [count_flatMap_eq_countP distinct, inputs, sifted.clauses_eq, List.countP_map, List.countP_filter,
    Formula.occurrences]
  refine List.countP_congr fun lits _ => ?_
  simp [Clause.ofLits, and_comm]

end ClauseLearning
