import ClauseLearning.Proofs.Trail.InUse

/-! # What a return undoes

A decision opens a level, and whatever is done from then on without leaving that level lies on top of the
trail as it was before the decision. So a return to the level that was current then takes back exactly this,
however many levels were opened and left in between. Only the cursor and the places of variables without a
value keep a trace of it.
-/

namespace ClauseLearning.Trail

/-- The second trail comes from the first one by a decision and further operations, none of which returns to
the level of the first one. -/
inductive Raised (t : Trail) : Trail → Prop
  | opened {t' : Trail} (l : Lit) : t.choose l = .ok t' → Raised t t'
  | push {middle t' : Trail} (a : Assignment) : Raised t middle → middle.push a = .ok t' → Raised t t'
  | choose {middle t' : Trail} (l : Lit) : Raised t middle → middle.choose l = .ok t' → Raised t t'
  | imply {middle t' : Trail} (l : Lit) (clause : Nat) : Raised t middle →
      middle.imply l clause = .ok t' → Raised t t'
  | backTo {middle : Trail} (level : Nat) : Raised t middle → t.level < level →
      Raised t (middle.backTo level)
  | nextToPropagate {middle t' : Trail} {l : Lit} : Raised t middle →
      middle.nextToPropagate = some (l, t') → Raised t t'
  | skipPropagation {middle : Trail} : Raised t middle → Raised t middle.skipPropagation

/-- The two trails have the same entries and levels, and give the same answer about every variable. -/
structure LooksLike (t' t : Trail) : Prop where
  entries_eq : t'.entries = t.entries
  levelStarts_eq : t'.levelStarts = t.levelStarts
  level_eq : t'.level = t.level
  valueOf_eq : ∀ l, t'.valueOf l = t.valueOf l
  isAssigned_eq : ∀ var, t'.isAssigned var = t.isAssigned var
  levelOf_eq : ∀ var, t'.levelOf var = t.levelOf var
  positionOf_eq : ∀ var, t'.positionOf var = t.positionOf var
  assignmentOf_eq : ∀ var, t'.assignmentOf var = t.assignmentOf var

section Return
variable {t middle t' : Trail} {a : Assignment} {vars : Nat}

namespace Coherent

/-- The assignments settle the table of values. -/
private theorem values_eq_of_stack_eq (coherent : t.Coherent) (coherent' : t'.Coherent)
    (stack_eq : t'.stack = t.stack) (varCount_eq : t'.varCount = t.varCount) : t'.values = t.values := by
  apply Array.ext_getElem?
  intro var
  rcases Nat.lt_or_ge var t.varCount with inRange | outOfRange
  · rw [coherent.values_eq inRange, coherent'.values_eq (varCount_eq.symm ▸ inRange), stack_eq]
  · have outOfRange' : t'.varCount ≤ var := varCount_eq.symm ▸ outOfRange
    rw [Array.getElem?_eq_none outOfRange, Array.getElem?_eq_none outOfRange']

/-- They also settle where a variable is found, although not what the table of places holds for a variable
without a value. -/
private theorem positionOf_eq_of_stack_eq (coherent : t.Coherent) (coherent' : t'.Coherent)
    (stack_eq : t'.stack = t.stack) (varCount_eq : t'.varCount = t.varCount) (var : Nat) :
    t'.positionOf var = t.positionOf var := by
  have values := coherent.values_eq_of_stack_eq coherent' stack_eq varCount_eq
  have entries : t'.entries.toList = t.entries.toList := List.reverse_injective stack_eq
  rcases Nat.lt_or_ge var t.varCount with inRange | outOfRange
  · by_cases assigned : ∃ a ∈ t.stack, a.var = var
    · obtain ⟨a, member, rfl⟩ := assigned
      obtain ⟨place, found⟩ := mem_stack_iff.mp member
      have found' : t'.entries[place]? = some a := by
        rw [← Array.getElem?_toList, entries, Array.getElem?_toList, found]
      rw [(coherent.assignmentOf_eq found).1, (coherent'.assignmentOf_eq found').1]
    · have fresh : ∀ a ∈ t.stack, a.var ≠ var := fun a member same => assigned ⟨a, member, same⟩
      rw [(coherent.assignmentOf_eq_none inRange fresh).1,
        (coherent'.assignmentOf_eq_none (varCount_eq.symm ▸ inRange) (stack_eq.symm ▸ fresh)).1]
  · have outside : fetch t.values var = .error .indexOutOfBounds := by
      rw [fetch, Array.getElem?_eq_none outOfRange]
    simp only [positionOf, isAssigned, values, outside]
    rfl

/-- Coherent trails with the same assignments look alike. -/
theorem looksLike (coherent : t.Coherent) (coherent' : t'.Coherent) (stack_eq : t'.stack = t.stack)
    (varCount_eq : t'.varCount = t.varCount) : t'.LooksLike t := by
  have entries : t'.entries = t.entries := Array.toList_inj.mp (List.reverse_injective stack_eq)
  have values := coherent.values_eq_of_stack_eq coherent' stack_eq varCount_eq
  have positions := coherent.positionOf_eq_of_stack_eq coherent' stack_eq varCount_eq
  have starts : t'.levelStarts = t.levelStarts := by
    apply Array.toList_inj.mp
    rw [coherent.starts, coherent'.starts, stack_eq]
  have assignments : ∀ var, t'.assignmentOf var = t.assignmentOf var := by
    intro var
    simp only [assignmentOf, entry, positions, entries]
  refine ⟨entries, starts, ?_, ?_, ?_, ?_, positions, assignments⟩
  · rw [level, level, starts]
  · intro l
    simp only [valueOf, values]
  · intro var
    simp only [isAssigned, values]
  · intro var
    simp only [levelOf, assignments]

end Coherent

/-- The second trail holds the first one, up to the level current there, below a level opened since. -/
structure StandsOn (t' t : Trail) : Prop where
  coherent : t'.Coherent
  varCount_eq : t'.varCount = t.varCount
  cut_eq : cut (height t.stack) t'.stack = t.stack
  higher : height t.stack < height t'.stack

namespace StandsOn

/-- An assignment belongs to the highest level in use or opens one above it. -/
theorem made (stands : middle.StandsOn t) (made : Coherent.Made middle a t') : t'.StandsOn t := by
  have stacked := made.coherent.stacked
  rw [made.stack_eq] at stacked
  have above : height t.stack < a.level := Nat.lt_of_lt_of_le stands.higher stacked.height_below_le
  refine ⟨made.coherent, made.varCount_eq.trans stands.varCount_eq, ?_, ?_⟩
  · rw [made.stack_eq, cut_cons_of_lt above, stands.cut_eq]
  · rw [made.stack_eq]
    exact above

theorem backTo (stands : middle.StandsOn t) {k : Nat} (above : height t.stack < k) :
    (middle.backTo k).StandsOn t := by
  have returned := stands.coherent.backTo k
  refine ⟨returned.coherent, returned.varCount_eq.trans stands.varCount_eq, ?_, ?_⟩
  · rw [returned.stack_eq, cut_cut (Nat.le_of_lt above), stands.cut_eq]
  · rw [returned.stack_eq]
    rcases Nat.le_total k (height middle.stack) with within | beyond
    · rwa [stands.coherent.stacked.height_cut within]
    · rw [stands.coherent.stacked.cut_eq_self beyond]
      exact stands.higher

end StandsOn

/-- Whatever follows a decision without leaving its level stands on the trail before it. -/
theorem Raised.standsOn (raised : Raised t t') (coherent : t.Coherent) : t'.StandsOn t := by
  induction raised with
  | opened l chosen =>
    have made := coherent.made_of_choose chosen
    have above : height t.stack < (Assignment.mk l (height t.stack + 1) .decision).level :=
      Nat.lt_succ_self _
    refine ⟨made.coherent, made.varCount_eq, ?_, ?_⟩
    · rw [made.stack_eq, cut_cons_of_lt above, coherent.stacked.cut_eq_self (Nat.le_refl _)]
    · rw [made.stack_eq]
      exact above
  | push _ _ pushed stands => exact stands.made (stands.coherent.made_of_push pushed)
  | choose _ _ chosen stands => exact stands.made (stands.coherent.made_of_choose chosen)
  | imply _ _ _ implied stands => exact stands.made (stands.coherent.made_of_imply implied)
  | backTo level _ above stands => exact stands.backTo (coherent.level_eq ▸ above)
  | nextToPropagate _ next stands =>
    obtain ⟨coherent', stackEq, varsEq, -⟩ := stands.coherent.nextToPropagate_eq_some next
    exact ⟨coherent', varsEq.trans stands.varCount_eq, stackEq.symm ▸ stands.cut_eq,
      stackEq.symm ▸ stands.higher⟩
  | skipPropagation _ stands =>
    exact ⟨stands.coherent.skipPropagation, stands.varCount_eq, stands.cut_eq, stands.higher⟩

end Return

/-- A return to the level that was current before a decision undoes all that was done since: the trail looks
as it did, nothing is passed that was not there, and what is taken back is the rest, of higher levels. -/
theorem backTo_undoes {vars : Nat} {t t' : Trail} (inUse : InUse vars t) (raised : Raised t t') :
    (t'.backTo t.level).LooksLike t ∧ (t'.backTo t.level).cursor ≤ t.size ∧
      t.entries.toList ++ t'.above t.level = t'.entries.toList ∧
        ∀ a ∈ t'.above t.level, t.level < a.level := by
  obtain ⟨coherent, -⟩ := inUse.coherent
  have stands := raised.standsOn coherent
  rw [coherent.level_eq]
  have returned := stands.coherent.backTo (height t.stack)
  refine ⟨?_, ?_, ?_, ?_⟩
  · exact coherent.looksLike returned.coherent (returned.stack_eq.trans stands.cut_eq)
      (returned.varCount_eq.trans stands.varCount_eq)
  · rw [returned.cursor_eq, stands.cut_eq, length_stack]
    exact Nat.min_le_right _ _
  · have split := congrArg List.reverse (stands.coherent.reverse_above_append (height t.stack))
    rw [stands.cut_eq, List.reverse_append, List.reverse_reverse] at split
    simpa only [stack, List.reverse_reverse] using split
  · exact fun a removed => (stands.coherent.mem_above_iff.mp removed).2

/-- Level two is opened, and a third level twice, over different variables. The return to level one leaves
their places behind. -/
theorem backTo_undoes_reopened : ∃ t t' : Trail, InUse 5 t ∧ Raised t t' ∧ t.level = 1 ∧
    t'.above 1 = [⟨⟨3, false⟩, 2, .decision⟩, ⟨⟨4, true⟩, 2, .implied 9⟩, ⟨⟨2, true⟩, 3, .decision⟩] ∧
    (t'.backTo 1).positions ≠ t.positions ∧
    (t'.backTo t.level).LooksLike t ∧ (t'.backTo t.level).cursor ≤ t.size ∧
      t.entries.toList ++ t'.above t.level = t'.entries.toList ∧
        ∀ a ∈ t'.above t.level, t.level < a.level := by
  have start : InUse 5 (.empty 5) := .empty
  have inUse := (start.choose ⟨1, true⟩ rfl).nextToPropagate rfl
  have above : ∀ {t t' : Trail}, InUse 5 t → t.choose ⟨3, false⟩ = .ok t' → Raised t t' := fun _ =>
    .opened ⟨3, false⟩
  have opened := (above inUse rfl).choose ⟨0, false⟩ rfl
  have returned := (opened.skipPropagation.backTo 2 (by decide)).imply ⟨4, true⟩ 9 rfl
  have raised := returned.choose ⟨2, true⟩ rfl
  exact ⟨_, _, inUse, raised, by decide, by decide, by decide, backTo_undoes inUse raised⟩

end ClauseLearning.Trail
