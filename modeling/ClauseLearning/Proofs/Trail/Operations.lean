import ClauseLearning.Proofs.Trail.Coherent
import Mathlib.Data.List.Perm.Subperm

/-! # What the operations of a trail do

Each operation of a coherent trail is described by the stack: looking up a literal or a variable
reads it, an assignment goes on top of it, and going back to a level cuts it. None of them meets a
fault as long as the variable is one of the trail and, for an assignment, is not assigned yet.
-/

namespace ClauseLearning.Trail

open Coherent

/-- Nothing is assigned on the empty trail. -/
@[simp] theorem stack_empty (vars : Nat) : (empty vars).stack = [] := rfl

@[simp] theorem varCount_empty (vars : Nat) : (empty vars).varCount = vars := by
  simp [empty, varCount]

theorem coherent_empty (vars : Nat) : (empty vars).Coherent where
  stacked := .nil
  starts := rfl
  positionCount := by simp [empty, varCount]
  placed := by simp [empty]
  listed := by
    intro var value found assigned
    have unknown : value = .unknown := by
      simp only [empty, Array.getElem?_replicate] at found
      split at found <;> simp_all
    exact (assigned unknown).elim
  cursor_le := Nat.zero_le _

namespace Coherent
variable {t : Trail} {a : Assignment} {l : Lit} {var k : Nat}

theorem level_eq (coherent : t.Coherent) : t.level = height t.stack := by
  have starts := congrArg List.length coherent.starts
  rw [coherent.stacked.length_levelStartsOf, Array.length_toList] at starts
  rw [level, starts, Nat.add_sub_cancel]

theorem levelFor_eq (coherent : t.Coherent) (reason : Reason) :
    t.levelFor reason = nextLevel t.stack reason := by
  cases reason <;> simp only [Trail.levelFor, nextLevel, coherent.level_eq]

theorem var_lt (coherent : t.Coherent) (member : a ∈ t.stack) : a.var < t.varCount := by
  obtain ⟨place, found⟩ := mem_stack_iff.mp member
  obtain ⟨inBounds, -⟩ := Array.getElem?_eq_some_iff.mp (coherent.placed found).1
  exact inBounds

/-- Each variable is assigned at most once. -/
theorem subperm_range (coherent : t.Coherent) :
    (t.stack.map Assignment.var).Subperm (List.range t.varCount) := by
  refine coherent.stacked.nodup_vars.subperm fun var listed => ?_
  obtain ⟨a, member, rfl⟩ := List.mem_map.mp listed
  exact List.mem_range.mpr (coherent.var_lt member)

/-- There are no more assignments than variables. -/
theorem size_le (coherent : t.Coherent) : t.size ≤ t.varCount := by
  simpa using coherent.subperm_range.length_le

/-- There are as many only if every variable has one. -/
theorem allAssigned_iff (coherent : t.Coherent) :
    t.allAssigned = true ↔ ∀ var < t.varCount, ∃ a ∈ t.stack, a.var = var := by
  rw [Trail.allAssigned, beq_iff_eq]
  constructor
  · intro full var inRange
    have perm := coherent.subperm_range.perm_of_length_le (by simp [full])
    exact List.mem_map.mp (perm.mem_iff.mpr (List.mem_range.mpr inRange))
  · intro complete
    have covered : List.range t.varCount ⊆ t.stack.map Assignment.var :=
      fun var inRange => List.mem_map.mpr (complete var (List.mem_range.mp inRange))
    have enough := (List.nodup_range.subperm covered).length_le
    simp only [List.length_range, List.length_map, length_stack] at enough
    exact Nat.le_antisymm coherent.size_le enough

/-- The table of values gives each variable the value of its positive literal. -/
theorem values_eq (coherent : t.Coherent) (inRange : var < t.varCount) :
    t.values[var]? = some (Lit.truthOn ⟨var, false⟩ t.stack) := by
  have found : t.values[var]? = some t.values[var] := Array.getElem?_eq_getElem inRange
  by_cases assigned : ∃ a ∈ t.stack, a.var = var
  · obtain ⟨a, member, rfl⟩ := assigned
    obtain ⟨place, placed⟩ := mem_stack_iff.mp member
    have value : Lit.truthOn ⟨a.var, false⟩ t.stack = .ofBool a.value := by
      have positive : a.var = Lit.var ⟨a.var, false⟩ := rfl
      rw [coherent.stacked.truthOn_eq member positive]
      refine congrArg TruthValue.ofBool ?_
      obtain ⟨⟨var, negative⟩, level, reason⟩ := a
      cases negative
      · exact beq_self_eq_true _
      · exact beq_false_of_ne (by simp)
    rw [value]
    exact (coherent.placed placed).1
  · have isOpen : Lit.OpenOn ⟨var, false⟩ t.stack :=
      openOn_iff.mpr fun a member same => assigned ⟨a, member, same⟩
    rw [truthOn_eq_unknown_iff.mpr isOpen, found]
    by_contra differs
    exact assigned (coherent.listed found fun unknown => differs (congrArg some unknown))

/-- The value of a literal is the one that the stack gives it. -/
theorem valueOf_eq (coherent : t.Coherent) (inRange : l.var < t.varCount) :
    t.valueOf l = .ok (l.truthOn t.stack) := by
  have fetched := fetch_eq_ok_iff.mpr (coherent.values_eq inRange)
  simp only [valueOf, fetched, ok_bind]
  refine congrArg Except.ok ?_
  simp only [Lit.truthOn]
  cases found : t.stack.find? (fun a => a.var == l.var) with
  | none => exact TruthValue.unknown_xor_ofSign _
  | some a =>
    have same : a.var = l.var := by simpa using List.find?_some found
    rw [TruthValue.ofBool_xor_ofSign]
    refine congrArg TruthValue.ofBool ?_
    obtain ⟨⟨var, negative⟩, level, reason⟩ := a
    obtain ⟨var', negative'⟩ := l
    obtain rfl : var = var' := same
    cases negative <;> cases negative' <;> simp

/-- Only a literal of a variable of the trail has a value. -/
theorem var_lt_of_valueOf {value : TruthValue} (found : t.valueOf l = .ok value) :
    l.var < t.varCount := by
  obtain ⟨entry, fetched, -⟩ := Checked.bind_eq_ok_iff.mp found
  obtain ⟨inBounds, -⟩ := Array.getElem?_eq_some_iff.mp (fetch_eq_ok_iff.mp fetched)
  exact inBounds

theorem truthOn_eq_of_valueOf (coherent : t.Coherent) {value : TruthValue}
    (found : t.valueOf l = .ok value) : l.truthOn t.stack = value := by
  rw [coherent.valueOf_eq (var_lt_of_valueOf found)] at found
  exact Except.ok.inj found

/-- A literal is seen to fail if and only if its negation is on the stack. -/
theorem valueOf_eq_fails_iff (coherent : t.Coherent) : t.valueOf l = .ok .fails ↔ l.FailsOn t.stack := by
  constructor
  · exact fun found => coherent.stacked.truthOn_eq_fails_iff.mp (coherent.truthOn_eq_of_valueOf found)
  · intro fails
    have inRange : l.var < t.varCount := by
      obtain ⟨a, member, same⟩ := fails
      exact Assignment.var_eq_of_lit_eq_negate same ▸ coherent.var_lt member
    rw [coherent.valueOf_eq inRange, coherent.stacked.truthOn_eq_fails_iff.mpr fails]

theorem isAssigned_eq (coherent : t.Coherent) (inRange : var < t.varCount) :
    t.isAssigned var = .ok (t.stack.any fun a => a.var == var) := by
  have fetched := fetch_eq_ok_iff.mpr (coherent.values_eq inRange)
  simp only [isAssigned, fetched, ok_bind]
  refine congrArg Except.ok ?_
  rw [Bool.eq_iff_iff, bne_iff_ne, ne_eq, truthOn_eq_unknown_iff, openOn_iff]
  simp

/-- An entry is looked up under its variable. -/
theorem assignmentOf_eq (coherent : t.Coherent) {place : Nat} (found : t.entries[place]? = some a) :
    t.positionOf a.var = .ok (some place) ∧ t.assignmentOf a.var = .ok (some a) := by
  have member : a ∈ t.stack := mem_stack_iff.mpr ⟨place, found⟩
  have present : (t.stack.any fun b => b.var == a.var) = true :=
    List.any_eq_true.mpr ⟨a, member, beq_self_eq_true _⟩
  have position : t.positionOf a.var = .ok (some place) := by
    simp only [positionOf, coherent.isAssigned_eq (coherent.var_lt member), ok_bind, present, if_true,
      fetch_eq_ok_iff.mpr (coherent.placed found).2]
    rfl
  refine ⟨position, ?_⟩
  simp only [assignmentOf, position, ok_bind, Trail.entry, fetch_eq_ok_iff.mpr found]
  rfl

/-- Nothing is looked up under a variable that is not assigned. -/
theorem assignmentOf_eq_none (coherent : t.Coherent) (inRange : var < t.varCount)
    (fresh : ∀ a ∈ t.stack, a.var ≠ var) :
    t.positionOf var = .ok none ∧ t.assignmentOf var = .ok none := by
  have absent : (t.stack.any fun a => a.var == var) = false := by simpa using fresh
  have position : t.positionOf var = .ok none := by
    simp only [positionOf, coherent.isAssigned_eq inRange, ok_bind, absent, Bool.false_eq_true, if_false]
    rfl
  exact ⟨position, by simp only [assignmentOf, position, ok_bind]; rfl⟩

/-- The level of a variable is the one at which the stack assigns it. -/
theorem levelOf_eq (coherent : t.Coherent) (inRange : var < t.varCount) :
    t.levelOf var = .ok (levelOn t.stack var) := by
  by_cases assigned : ∃ a ∈ t.stack, a.var = var
  · obtain ⟨a, member, rfl⟩ := assigned
    obtain ⟨place, placed⟩ := mem_stack_iff.mp member
    rw [levelOf, (coherent.assignmentOf_eq placed).2, coherent.stacked.levelOn_eq member]
    rfl
  · have fresh : ∀ a ∈ t.stack, a.var ≠ var := fun a member same => assigned ⟨a, member, same⟩
    have unlevelled : levelOn t.stack var = none := by
      rw [levelOn, List.find?_eq_none.mpr (by simpa using fresh)]
      rfl
    rw [levelOf, (coherent.assignmentOf_eq_none inRange fresh).2, unlevelled]
    rfl

theorem levelOf_eq_of_lit_eq_negate (coherent : t.Coherent) (member : a ∈ t.stack)
    (same : a.lit = l.negate) : t.levelOf l.var = .ok (some a.level) := by
  rw [← Assignment.var_eq_of_lit_eq_negate same, coherent.levelOf_eq (coherent.var_lt member),
    coherent.stacked.levelOn_eq member]

/-- A literal is open on what a return leaves if its variable was assigned above. -/
theorem openOn_cut_of_levelOf (coherent : t.Coherent) {level : Nat} (inRange : l.var < t.varCount)
    (found : t.levelOf l.var = .ok (some level)) (below : k < level) :
    l.OpenOn (cut k t.stack) := by
  rw [coherent.levelOf_eq inRange, Except.ok.injEq, levelOn, Option.map_eq_some_iff] at found
  obtain ⟨a, first, rfl⟩ := found
  have var : a.var = l.var := by simpa using List.find?_some first
  refine openOn_iff.mpr fun b left same => ?_
  obtain ⟨member, within⟩ := coherent.stacked.mem_cut_iff.mp left
  obtain rfl := coherent.stacked.eq_of_var_eq member (List.mem_of_find?_eq_some first)
    (same.trans var.symm)
  omega

structure Made (t : Trail) (a : Assignment) (t' : Trail) : Prop where
  coherent : t'.Coherent
  stack_eq : t'.stack = a :: t.stack
  varCount_eq : t'.varCount = t.varCount
  cursor_eq : t'.cursor = t.cursor

/-- An assignment of a variable that has none goes on top of the stack. -/
theorem push_yields (coherent : t.Coherent) (inRange : a.var < t.varCount)
    (fresh : ∀ b ∈ t.stack, b.var ≠ a.var) (level : a.level = nextLevel t.stack a.reason) :
    Yields (t.push a) (Made t a) := by
  have isOpen : Lit.OpenOn ⟨a.var, false⟩ t.stack := openOn_iff.mpr fresh
  have fetched : fetch t.values a.var = .ok .unknown :=
    fetch_eq_ok_iff.mpr ((coherent.values_eq inRange).trans
      (congrArg some (truthOn_eq_unknown_iff.mpr isOpen)))
  have levelFor := coherent.levelFor_eq a.reason
  have valueBound : a.var < t.values.size := inRange
  have positionBound : a.var < t.positions.size := coherent.positionCount ▸ inRange
  have ended : t.entries.size = t.size := rfl
  obtain ⟨entries, starts, values, positions, cursor⟩ := t
  simp only [Trail.push, fetched, ok_bind, ne_eq, not_true_eq_false, if_false, level, levelFor,
    store_of_lt _ valueBound, store_of_lt _ positionBound]
  refine yields_pure_iff.mpr ⟨?_, ?_, ?_, rfl⟩
  · constructor
    · have onTop := Stacked.cons coherent.stacked fresh level
      simpa [stack] using onTop
    · have starts := coherent.starts
      simp only [stack] at starts
      simp only [stack, Array.toList_push, List.reverse_append, List.reverse_cons, List.reverse_nil,
        List.nil_append, List.cons_append, levelStartsOf]
      split <;> simp [starts]
    · simpa [varCount] using coherent.positionCount
    · intro place b found
      rw [Array.getElem?_push] at found
      split at found
      · rename_i last
        obtain rfl := Option.some.inj found
        simp only [last]
        exact ⟨by simp, by simp⟩
      · have member : b ∈ (Trail.mk entries starts values positions cursor).stack :=
          mem_stack_iff.mpr ⟨place, found⟩
        have differs : a.var ≠ b.var := fun same => fresh b member same.symm
        rw [Array.getElem?_set_ne _ differs, Array.getElem?_set_ne _ differs]
        exact coherent.placed found
    · intro var value found assigned
      by_cases same : a.var = var
      · exact ⟨a, by simp [stack], same⟩
      · rw [Array.getElem?_set_ne _ same] at found
        obtain ⟨b, member, equal⟩ := coherent.listed found assigned
        exact ⟨b, by simp only [stack] at member; simp [stack]; simp_all, equal⟩
    · have within := coherent.cursor_le
      simp only [Trail.size, Array.size_push] at within ⊢
      omega
  · simp [stack]
  · simp [varCount]

/-- A decision opens a level with a literal whose variable is not assigned. -/
theorem choose_yields (coherent : t.Coherent) (inRange : l.var < t.varCount)
    (isOpen : l.OpenOn t.stack) :
    Yields (t.choose l) (Made t ⟨l, height t.stack + 1, .decision⟩) := by
  rw [Trail.choose, coherent.level_eq]
  exact coherent.push_yields inRange (openOn_iff.mp isOpen) rfl

/-- An assignment is made only of a variable that has none, and at the level that its reason asks for. -/
theorem made_of_push (coherent : t.Coherent) {t' : Trail} (pushed : t.push a = .ok t') : Made t a t' := by
  obtain ⟨value, fetched, onward⟩ := Checked.bind_eq_ok_iff.mp pushed
  have found := fetch_eq_ok_iff.mp fetched
  obtain ⟨inBounds, -⟩ := Array.getElem?_eq_some_iff.mp found
  have inRange : a.var < t.varCount := inBounds
  have unknown : value = .unknown := by
    by_contra assigned
    rw [if_pos assigned] at onward
    cases onward
  rw [if_neg (not_not.mpr unknown)] at onward
  have level : a.level = t.levelFor a.reason := by
    by_contra differs
    rw [if_pos differs] at onward
    cases onward
  rw [coherent.values_eq inRange, unknown, Option.some.injEq, truthOn_eq_unknown_iff, openOn_iff]
    at found
  exact (coherent.push_yields inRange found (level.trans (coherent.levelFor_eq _))).of_eq pushed

/-- A literal can be decided only if its variable is not assigned. -/
theorem made_of_choose (coherent : t.Coherent) {t' : Trail} (chosen : t.choose l = .ok t') :
    Made t ⟨l, height t.stack + 1, .decision⟩ t' := by
  rw [Trail.choose, coherent.level_eq] at chosen
  exact coherent.made_of_push chosen

/-- Nor is it forced otherwise. -/
theorem made_of_imply (coherent : t.Coherent) {t' : Trail} {id : Nat}
    (implied : t.imply l id = .ok t') : Made t ⟨l, height t.stack, .implied id⟩ t' := by
  rw [Trail.imply, coherent.level_eq] at implied
  exact coherent.made_of_push implied

/-- A clause forces a literal whose variable is not assigned, at the current level. -/
theorem imply_yields (coherent : t.Coherent) (inRange : l.var < t.varCount)
    (isOpen : l.OpenOn t.stack) (id : Nat) :
    Yields (t.imply l id) (Made t ⟨l, height t.stack, .implied id⟩) := by
  rw [Trail.imply, coherent.level_eq]
  exact coherent.push_yields inRange (openOn_iff.mp isOpen) rfl

end Coherent

end ClauseLearning.Trail
