import ClauseLearning.Proofs.Trail.Places
import ClauseLearning.Proofs.Trail.Return

/-! # Trails in use

A trail says the same thing several times over: in the list of its entries, in the tables of values and
places, in the starts of its levels and in its cursor. They agree after every use of the trail, whatever is
assigned, taken back and passed, and in which order, as long as no assignment stops with a fault. The
levels of the entries then follow from their reasons, and what lies above a level is a matter of the levels
of the entries alone.
-/

namespace ClauseLearning.Trail

/-- The trail is what operations have made of the empty one over the variables. -/
inductive InUse (vars : Nat) : Trail → Prop
  | empty : InUse vars (.empty vars)
  | push {t t' : Trail} (a : Assignment) : InUse vars t → t.push a = .ok t' → InUse vars t'
  | choose {t t' : Trail} (l : Lit) : InUse vars t → t.choose l = .ok t' → InUse vars t'
  | imply {t t' : Trail} (l : Lit) (clause : Nat) : InUse vars t → t.imply l clause = .ok t' →
      InUse vars t'
  | backTo {t : Trail} (level : Nat) : InUse vars t → InUse vars (t.backTo level)
  | nextToPropagate {t t' : Trail} {l : Lit} : InUse vars t → t.nextToPropagate = some (l, t') →
      InUse vars t'
  | skipPropagation {t : Trail} : InUse vars t → InUse vars t.skipPropagation

/-- The tables of a trail over the variables agree with its entries. -/
structure Agrees (t : Trail) (vars : Nat) : Prop where
  varCount_eq : t.varCount = vars
  inRange : ∀ a ∈ t.entries.toList, a.var < vars
  once : (t.entries.toList.map Assignment.var).Nodup
  /-- The table of values has a value for the variables that occur, and for no others. -/
  known_iff : ∀ var < vars, ∃ value, t.values[var]? = some value ∧ (value ≠ .unknown ↔ t.HasValue var)
  /-- An entry is found under its variable. -/
  found : ∀ (place : Nat) (a : Assignment), t.entries[place]? = some a →
    t.positions[a.var]? = some place ∧ t.positionOf a.var = .ok (some place) ∧
      t.assignmentOf a.var = .ok (some a)
  /-- Its literal holds, and the negation fails. -/
  valued : ∀ a ∈ t.entries.toList, t.valueOf a.lit = .ok .holds ∧ t.valueOf a.lit.negate = .ok .fails
  /-- Nothing is found under any other variable. -/
  absent : ∀ l : Lit, l.var < vars → ¬ t.HasValue l.var →
    t.valueOf l = .ok .unknown ∧ t.positionOf l.var = .ok none ∧ t.assignmentOf l.var = .ok none
  monotone : t.isMonotone = true
  /-- A decision is one level above what was there before it, and nothing else is. -/
  first_level : ∀ a, t.entries[0]? = some a → a.level = if a.isDecision then 1 else 0
  next_level : ∀ (place : Nat) (a b : Assignment), t.entries[place]? = some a →
    t.entries[place + 1]? = some b → b.level = if b.isDecision then a.level + 1 else a.level
  decisions : t.entries.toList.countP Assignment.isDecision = t.level
  above_eq : ∀ level, t.above level = t.entries.toList.filter fun a => level < a.level
  total_iff : t.total?.isSome = true ↔ ∀ var < vars, t.HasValue var
  cursor_le : t.cursor ≤ t.size

section Agreement
variable {t : Trail} {vars : Nat} {a : Assignment} {stack : List Assignment}

/-- Every operation keeps the tables coherent, and the number of variables. -/
theorem InUse.coherent (inUse : InUse vars t) : t.Coherent ∧ t.varCount = vars := by
  induction inUse with
  | empty => exact ⟨coherent_empty vars, varCount_empty vars⟩
  | push _ _ pushed ih =>
    obtain ⟨coherent, rfl⟩ := ih
    have made := coherent.made_of_push pushed
    exact ⟨made.coherent, made.varCount_eq⟩
  | choose _ _ chosen ih =>
    obtain ⟨coherent, rfl⟩ := ih
    have made := coherent.made_of_choose chosen
    exact ⟨made.coherent, made.varCount_eq⟩
  | imply _ _ _ implied ih =>
    obtain ⟨coherent, rfl⟩ := ih
    have made := coherent.made_of_imply implied
    exact ⟨made.coherent, made.varCount_eq⟩
  | backTo level _ ih =>
    obtain ⟨coherent, rfl⟩ := ih
    have returned := coherent.backTo level
    exact ⟨returned.coherent, returned.varCount_eq⟩
  | nextToPropagate _ next ih =>
    obtain ⟨coherent, rfl⟩ := ih
    obtain ⟨coherent', -, varCount, -⟩ := coherent.nextToPropagate_eq_some next
    exact ⟨coherent', varCount⟩
  | skipPropagation _ ih => exact ⟨ih.1.skipPropagation, ih.2⟩

/-- Levels that no later entry falls below are monotone. -/
theorem levelsMonotone_of_pairwise (ordered : stack.Pairwise fun a b => a.level ≤ b.level) :
    levelsMonotone stack = true := by
  induction stack with
  | nil => rfl
  | cons a rest ih =>
    cases rest with
    | nil => rfl
    | cons b rest =>
      obtain ⟨later, ordered⟩ := List.pairwise_cons.mp ordered
      simp [levelsMonotone, later b, ih ordered]

namespace Coherent

/-- The level of an entry follows from that of the entries before it. -/
theorem level_of_getElem? (coherent : t.Coherent) {place : Nat} (found : t.entries[place]? = some a) :
    a.level = if a.isDecision then height (t.before place) + 1 else height (t.before place) := by
  rw [(coherent.stacked.suffix (suffix_of_getElem? found)).level_eq]
  cases reason : a.reason <;> simp [nextLevel, Assignment.isDecision, reason]

/-- What lies above a level are the entries of a higher one, in their order. -/
theorem above_eq_filter (coherent : t.Coherent) (k : Nat) :
    t.above k = t.entries.toList.filter fun a => k < a.level := by
  have split := congrArg List.reverse (coherent.reverse_above_append k)
  rw [List.reverse_append, List.reverse_reverse, stack, List.reverse_reverse] at split
  rw [← split, List.filter_append, List.filter_eq_nil_iff.mpr, List.filter_eq_self.mpr, List.nil_append]
  · exact fun a removed => decide_eq_true (coherent.mem_above_iff.mp removed).2
  · intro a kept
    have within := (coherent.stacked.mem_cut_iff.mp (List.mem_reverse.mp kept)).2
    simpa using within

/-- Coherent tables agree with the entries. -/
theorem agrees (coherent : t.Coherent) : t.Agrees t.varCount := by
  have stacked := coherent.stacked
  have member : ∀ {a}, a ∈ t.entries.toList → a ∈ t.stack := List.mem_reverse.mpr
  refine ⟨rfl, fun a listed => coherent.var_lt (member listed), ?_, ?_, ?_, ?_, ?_, ?_, ?_, ?_, ?_,
    coherent.above_eq_filter, ?_, coherent.cursor_le⟩
  · have distinct := stacked.nodup_vars
    rw [stack, List.map_reverse] at distinct
    exact (List.reverse_perm _).nodup_iff.mp distinct
  · intro var inRange
    refine ⟨_, coherent.values_eq inRange, ?_⟩
    rw [ne_eq, truthOn_eq_unknown_iff, openOn_iff, ← not_hasValue_iff, not_not]
  · exact fun place a placed => ⟨(coherent.placed placed).2, coherent.assignmentOf_eq placed⟩
  · intro a listed
    have inRange := coherent.var_lt (member listed)
    have holds : a.lit.HoldsOn t.stack := ⟨a, member listed, rfl⟩
    have value := coherent.valueOf_eq (l := a.lit) inRange
    have negated := coherent.valueOf_eq (l := a.lit.negate) inRange
    rw [stacked.truthOn_eq_holds_iff.mpr holds] at value
    rw [stacked.truthOn_eq_fails_iff.mpr (failsOn_negate_iff.mpr holds)] at negated
    exact ⟨value, negated⟩
  · intro l inRange unassigned
    have fresh := not_hasValue_iff.mp unassigned
    refine ⟨(coherent.valueOf_eq inRange).trans ?_, coherent.assignmentOf_eq_none inRange fresh⟩
    rw [truthOn_eq_unknown_iff.mpr (openOn_iff.mpr fresh)]
  · have ordered := stacked.pairwise_level_le
    rw [stack, List.pairwise_reverse] at ordered
    exact levelsMonotone_of_pairwise ordered
  · exact fun a found => coherent.level_of_getElem? found
  · intro place a b found next
    rw [coherent.level_of_getElem? next, before_succ found, height]
  · have count := stacked.countP_isDecision
    rwa [stack, List.countP_reverse, ← stack, ← coherent.level_eq] at count
  · simp only [total?, hasValue_iff, ← coherent.allAssigned_iff]
    split <;> simp_all

end Coherent

end Agreement

/-- However a trail is used, its tables agree with its entries. -/
theorem tables_agree {vars : Nat} {t : Trail} (inUse : InUse vars t) : t.Agrees vars := by
  obtain ⟨coherent, rfl⟩ := inUse.coherent
  exact coherent.agrees

/-- Two levels are opened above an entry of level zero and taken back, which leaves two places behind in the
table of places. The variables freed are assigned again, one by the decision that now opens level one. -/
theorem tables_agree_reassigned : ∃ t : Trail, InUse 4 t ∧
    t.entries.toList = [⟨⟨1, true⟩, 0, .implied 5⟩, ⟨⟨3, false⟩, 1, .decision⟩,
      ⟨⟨0, true⟩, 1, .implied 2⟩] ∧
    t.positions.toList = [2, 0, 2, 1] ∧ t.cursor = 3 ∧ t.Agrees 4 := by
  have start : InUse 4 (.empty 4) := .empty
  have bottom := start.push ⟨⟨1, true⟩, 0, .implied 5⟩ rfl
  have raised := (bottom.choose ⟨0, false⟩ rfl).choose ⟨2, false⟩ rfl
  have passed := (raised.imply ⟨3, true⟩ 7 rfl).nextToPropagate rfl
  have returned := (passed.backTo 2).backTo 0
  have again := (returned.push ⟨⟨3, false⟩, 1, .decision⟩ rfl).imply ⟨0, true⟩ 2 rfl
  have inUse := again.skipPropagation
  exact ⟨_, inUse, by decide +kernel, by decide +kernel, by decide +kernel, tables_agree inUse⟩

end ClauseLearning.Trail
