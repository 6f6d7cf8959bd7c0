import ClauseLearning.Formula
import ClauseLearning.Observation.Recorder
import Mathlib.Data.List.Basic

/-! # Replaying the events of a search

A log of events can be followed without a solver. A replay keeps the assignments that the events tell of,
the current level, and what the log has to go on with. `Admits` says which events may come next, and
`after` what becomes of the assignments; a log that a replay follows to its end is well formed. How its
events follow on one another, and how many of each kind there are, is read off the replay alone.
-/

namespace ClauseLearning

namespace Replay

/-- An assignment as events tell of it. -/
structure Entry where
  lit : Lit
  level : Nat
  /-- The literals of the clause that forced it, if it was not chosen. -/
  antecedent : Option (List Lit)
deriving DecidableEq, Repr

/-- What a log has to go on with. -/
inductive Stage where
  | searching
  /-- There was a conflict above level zero, from which a clause is learned next. -/
  | conflicted
  /-- A clause was learned, for which the search goes back to the level next. -/
  | learned (target : Nat)
  /-- The formula is refuted, and nothing but this verdict is left. -/
  | refuted
  | over (verdict : Verdict)
deriving DecidableEq, Repr

end Replay

/-- The state of a search as its events tell of it. -/
structure Replay where
  entries : List Replay.Entry := []
  level : Nat := 0
  stage : Replay.Stage := .searching
deriving DecidableEq, Repr

namespace Replay

def Falsifies (r : Replay) (l : Lit) : Prop := ∃ a ∈ r.entries, a.lit = l.negate

def Leaves (r : Replay) (var : Nat) : Prop := ∀ a ∈ r.entries, a.lit.var ≠ var

instance (r : Replay) (l : Lit) : Decidable (r.Falsifies l) :=
  inferInstanceAs (Decidable (∃ a ∈ r.entries, a.lit = l.negate))

instance (r : Replay) (var : Nat) : Decidable (r.Leaves var) :=
  inferInstanceAs (Decidable (∀ a ∈ r.entries, a.lit.var ≠ var))

/-- Whether the event may come next. -/
def Admits (r : Replay) : Event → Prop
  | .decision l level => r.stage = .searching ∧ level = r.level + 1 ∧ r.Leaves l.var
  | .propagation l level antecedent => r.stage = .searching ∧ level = r.level ∧ r.Leaves l.var ∧
      l ∈ antecedent ∧ ∀ other ∈ antecedent, other ≠ l → r.Falsifies other
  | .conflict clause level => r.stage = .searching ∧ level = r.level ∧ ∀ l ∈ clause, r.Falsifies l
  | .learned clause target => r.stage = .conflicted ∧ target < r.level ∧ ∀ l ∈ clause, r.Falsifies l
  | .backtrack source target => r.stage = .learned target ∧ source = r.level
  | .finished .sat => r.stage = .searching
  | .finished .unsat => r.stage = .refuted

instance (r : Replay) : (e : Event) → Decidable (r.Admits e)
  | .decision _ _ => inferInstanceAs (Decidable (_ ∧ _ ∧ _))
  | .propagation _ _ _ => inferInstanceAs (Decidable (_ ∧ _ ∧ _ ∧ _ ∧ _))
  | .conflict _ _ => inferInstanceAs (Decidable (_ ∧ _ ∧ _))
  | .learned _ _ => inferInstanceAs (Decidable (_ ∧ _ ∧ _))
  | .backtrack _ _ => inferInstanceAs (Decidable (_ ∧ _))
  | .finished .sat => inferInstanceAs (Decidable (r.stage = .searching))
  | .finished .unsat => inferInstanceAs (Decidable (r.stage = .refuted))

/-- The replay after an event. A return leaves the assignments up to its target level. -/
def after (r : Replay) : Event → Replay
  | .decision l level => { r with entries := ⟨l, level, none⟩ :: r.entries, level }
  | .propagation l level antecedent =>
    { r with entries := ⟨l, level, some antecedent⟩ :: r.entries }
  | .conflict _ level => { r with stage := if level = 0 then .refuted else .conflicted }
  | .learned _ target => { r with stage := .learned target }
  | .backtrack _ target => ⟨r.entries.filter (·.level ≤ target), target, .searching⟩
  | .finished verdict => { r with stage := .over verdict }

def step? (r : Replay) (e : Event) : Option Replay := if r.Admits e then some (r.after e) else none

def run? (r : Replay) (log : List Event) : Option Replay := log.foldlM step? r

/-- The replay before any event of a search for a model of the formula. An empty clause refutes the
formula at once. -/
def start (f : Formula) : Replay := { stage := if f.hasEmptyClause then .refuted else .searching }

/-- The stage at which an event comes. -/
def stageFor : Event → Stage
  | .decision .. | .propagation .. | .conflict .. | .finished .sat => .searching
  | .learned .. => .conflicted
  | .backtrack _ target => .learned target
  | .finished .unsat => .refuted

def removed (r : Replay) : Event → Nat
  | .backtrack _ target => r.entries.countP (target < ·.level)
  | _ => 0

/-- How many assignments the returns among the events take back. -/
def takenBack (r : Replay) : List Event → Nat
  | [] => 0
  | e :: rest => r.removed e + (r.after e).takenBack rest

section Run
variable {r middle r' : Replay} {e : Event} {log earlier later : List Event}

theorem Admits.stage_eq (admitted : r.Admits e) : r.stage = stageFor e := by
  cases e with
  | finished verdict => cases verdict <;> exact admitted
  | _ => exact admitted.1

@[simp] theorem run?_nil : r.run? [] = some r := rfl

theorem step?_eq_some_iff : r.step? e = some r' ↔ r.Admits e ∧ r.after e = r' := by
  simp [step?]

theorem run?_cons_eq_some_iff :
    r.run? (e :: later) = some r' ↔ r.Admits e ∧ (r.after e).run? later = some r' := by
  simp only [run?, List.foldlM_cons, Option.bind_eq_bind, Option.bind_eq_some_iff, step?_eq_some_iff]
  constructor
  · rintro ⟨middle, ⟨admitted, rfl⟩, ran⟩
    exact ⟨admitted, ran⟩
  · rintro ⟨admitted, ran⟩
    exact ⟨_, ⟨admitted, rfl⟩, ran⟩

theorem run?_append_eq_some_iff :
    r.run? (earlier ++ later) = some r' ↔ ∃ middle, r.run? earlier = some middle ∧
      middle.run? later = some r' := by
  simp [run?, List.foldlM_append, Option.bind_eq_some_iff]

/-- A replay goes on with one more event. -/
theorem run?_concat (ran : r.run? log = some middle) (admitted : middle.Admits e) :
    r.run? (log ++ [e]) = some (middle.after e) :=
  run?_append_eq_some_iff.mpr ⟨middle, ran, run?_cons_eq_some_iff.mpr ⟨admitted, rfl⟩⟩

end Run

section Order
variable {r r' : Replay} {log earlier later : List Event} {clause : List Lit} {level target : Nat}
  {verdict : Verdict}

/-- Nothing comes after the end. -/
theorem eq_nil_of_over (ended : r.stage = .over verdict) (ran : r.run? log = some r') : log = [] := by
  cases log with
  | nil => rfl
  | cons e rest =>
    have due := ended.symm.trans (run?_cons_eq_some_iff.mp ran).1.stage_eq
    cases e with
    | finished verdict' => cases verdict' <;> cases due
    | _ => cases due

/-- A refutation is followed by nothing but the verdict. -/
theorem eq_nil_or_finished_of_refuted (refuted : r.stage = .refuted) (ran : r.run? log = some r') :
    log = [] ∨ log = [.finished .unsat] := by
  cases log with
  | nil => exact .inl rfl
  | cons e rest =>
    obtain ⟨admitted, ran⟩ := run?_cons_eq_some_iff.mp ran
    have due := refuted.symm.trans admitted.stage_eq
    cases e with
    | finished verdict =>
      cases verdict with
      | sat => cases due
      | unsat => exact .inr (by rw [eq_nil_of_over rfl ran])
    | _ => cases due

/-- A clause is learned right after a conflict above level zero, and the search goes back for it right
after that. -/
theorem eq_learned_of_conflicted (conflicted : r.stage = .conflicted) (ran : r.run? log = some r')
    (onward : r'.stage ≠ .conflicted) (returned : ∀ target, r'.stage ≠ .learned target) :
    ∃ clause target rest, log = .learned clause target :: .backtrack r.level target :: rest ∧
      target < r.level := by
  cases log with
  | nil =>
    cases ran
    exact (onward conflicted).elim
  | cons e rest =>
    obtain ⟨admitted, ran⟩ := run?_cons_eq_some_iff.mp ran
    have due := conflicted.symm.trans admitted.stage_eq
    cases e with
    | learned clause target =>
      obtain ⟨-, lower, -⟩ := admitted
      cases rest with
      | nil =>
        cases ran
        exact (returned target rfl).elim
      | cons e rest =>
        obtain ⟨admitted, -⟩ := run?_cons_eq_some_iff.mp ran
        have due : Stage.learned target = stageFor e := admitted.stage_eq
        cases e with
        | backtrack source target' =>
          cases due
          exact ⟨clause, target, rest, by rw [admitted.2]; rfl, lower⟩
        | finished verdict => cases verdict <;> cases due
        | _ => cases due
    | finished verdict => cases verdict <;> cases due
    | _ => cases due

/-- The stages in which a log may end: an analysis is not left in its middle. -/
def Stage.Rests (stage : Stage) : Prop := stage = .searching ∨ ∃ verdict, stage = .over verdict

/-- What follows a conflict in a log that does not end in the middle of an analysis. -/
theorem conflict_followed (ran : r.run? (earlier ++ .conflict clause level :: later) = some r')
    (rests : r'.stage.Rests) :
    level = 0 ∧ later = [.finished .unsat] ∨
      ∃ learned target rest, later = .learned learned target :: .backtrack level target :: rest ∧
        target < level := by
  obtain ⟨middle, -, ran⟩ := run?_append_eq_some_iff.mp ran
  obtain ⟨⟨-, rfl, -⟩, ran⟩ := run?_cons_eq_some_iff.mp ran
  by_cases bottom : middle.level = 0
  · have refuted : (middle.after (.conflict clause middle.level)).stage = .refuted := if_pos bottom
    refine .inl ⟨bottom, (eq_nil_or_finished_of_refuted refuted ran).resolve_left ?_⟩
    rintro rfl
    cases ran
    rcases rests with same | ⟨verdict, same⟩ <;> simp [refuted] at same
  · refine .inr (eq_learned_of_conflicted (r := middle.after (.conflict clause middle.level))
      (if_neg bottom) ran ?_ ?_)
    · rcases rests with same | ⟨verdict, same⟩ <;> simp [same]
    · rcases rests with same | ⟨verdict, same⟩ <;> simp [same]

/-- The end is told of only where it is reached. -/
theorem finished_not_mem (ran : r.run? log = some r') (going : ∀ verdict, r'.stage ≠ .over verdict) :
    .finished verdict ∉ log := by
  intro told
  obtain ⟨earlier, later, rfl⟩ := List.append_of_mem told
  obtain ⟨middle, -, ran⟩ := run?_append_eq_some_iff.mp ran
  obtain ⟨-, ran⟩ := run?_cons_eq_some_iff.mp ran
  obtain rfl := eq_nil_of_over rfl ran
  cases ran
  exact going verdict rfl

/-- Where the end is reached, it is told of last and not before. -/
theorem exists_finished (ran : r.run? log = some r') (going : ∀ other, r.stage ≠ .over other)
    (ended : r'.stage = .over verdict) :
    ∃ earlier, log = earlier ++ [.finished verdict] ∧ ∀ other, .finished other ∉ earlier := by
  rcases List.eq_nil_or_concat' log with rfl | ⟨earlier, e, rfl⟩
  · cases ran
    exact (going verdict ended).elim
  obtain ⟨middle, before, last⟩ := run?_append_eq_some_iff.mp ran
  obtain ⟨admitted, last⟩ := run?_cons_eq_some_iff.mp last
  cases last
  cases e with
  | finished verdict' =>
    obtain rfl := Stage.over.inj ended
    refine ⟨earlier, rfl, fun other => finished_not_mem before fun verdict same => ?_⟩
    have due := same.symm.trans admitted.stage_eq
    cases verdict' <;> cases due
  | conflict clause level =>
    simp only [after] at ended
    split at ended <;> cases ended
  | learned clause target => cases ended
  | backtrack source target => cases ended
  | decision l level => cases admitted.1.symm.trans ended
  | propagation l level antecedent => cases admitted.1.symm.trans ended

end Order

end Replay

end ClauseLearning
