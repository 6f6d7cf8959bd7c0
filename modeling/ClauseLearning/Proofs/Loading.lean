import ClauseLearning.Observation.Recorder
import ClauseLearning.Proofs.Search.Loading

/-! # What loading makes of a formula

Loading drops repeated literals, tautologies and empty clauses, in one pass. Nothing of what the formula
says is lost on the way: the clauses loaded, together with the mark that an empty clause came up, have
the models of the formula, and each clause of the formula is accounted for. The only obstacle to loading
is a number of variables whose tables cannot be addressed.
-/

namespace ClauseLearning

/-- The input clause was made of the given literals: it has each of them once, in the order in which they
first occur. -/
structure Clause.MadeFrom (c : Clause) (lits : List Lit) : Prop where
  kind_eq : c.kind = .input
  firstOccurrences : FirstOccurrences c.lits lits

/-- The clause made of contingent literals is contingent and repeats none of them. -/
theorem Contingent.eraseDups {lits : List Lit} (contingent : Contingent lits) :
    lits.eraseDups.Nodup ∧ Contingent lits.eraseDups := by
  refine ⟨nodup_eraseDups lits, fun none => contingent.1 (eraseDups_eq_nil_iff.mp none), ?_⟩
  intro l member negated
  exact contingent.2 l (List.mem_eraseDups.mp member) (List.mem_eraseDups.mp negated)

namespace Loading.Sifted
variable {σ : Type} {done : List (List Lit)} {loading : Loading σ}

/-- The clauses loaded correspond to the contingent ones, one by one and in order. -/
theorem made (sifted : loading.Sifted done) :
    List.Forall₂ Clause.MadeFrom loading.db.clauses.toList (done.filter (Contingent ·)) := by
  rw [sifted.clauses_eq, List.forall₂_map_left_iff, List.forall₂_same]
  exact fun lits _ => ⟨rfl, firstOccurrences_eraseDups lits⟩

/-- Every clause loaded can be satisfied and can be violated, and repeats nothing. -/
theorem proper (sifted : loading.Sifted done) :
    ∀ c ∈ loading.db.clauses.toList, c.lits.Nodup ∧ Contingent c.lits := by
  intro c listed
  rw [sifted.clauses_eq] at listed
  obtain ⟨lits, member, rfl⟩ := List.mem_map.mp listed
  have contingent : Contingent lits := by simpa using (List.mem_filter.mp member).2
  exact contingent.eraseDups

end Loading.Sifted

/-- A formula is satisfied exactly if it has no empty clause and its other clauses are satisfied. -/
theorem Formula.satisfiedBy_iff {f : Formula} {assignment : Nat → Bool} :
    f.SatisfiedBy assignment ↔ f.hasEmptyClause = false ∧
      ∀ lits ∈ f.clauses.toList, lits ≠ [] → Satisfies assignment lits := by
  constructor
  · intro satisfied
    refine ⟨List.any_eq_false.mpr ?_, fun lits member _ => satisfied lits member⟩
    intro lits member empty
    obtain rfl := List.isEmpty_iff.mp empty
    exact not_satisfies_nil assignment (satisfied [] member)
  · rintro ⟨filled, satisfied⟩ lits member
    refine satisfied lits member fun empty => ?_
    exact List.any_eq_false.mp filled lits member (List.isEmpty_iff.mpr empty)

/-- A clause with a literal repeated, an empty one, a tautology, and one literal given twice. -/
def assorted : Formula :=
  ⟨3, #[[⟨1, false⟩, ⟨0, false⟩, ⟨1, false⟩], [], [⟨2, false⟩, ⟨0, true⟩, ⟨2, true⟩],
    [⟨0, true⟩, ⟨0, true⟩]]⟩

theorem assorted_built : assorted.Built :=
  .given (show Formula.ofClauses [[2, 1, 2], [], [3, -1, -3], [-1, -1]] = .ok (.ok assorted) by
    decide +kernel)

namespace Solver

/-- The solver has what the formula says. An assignment satisfies the formula if no empty clause came up
and it satisfies the clauses loaded. These are the contingent clauses of the formula in their order, each
without its repetitions, and the counters add up to the clauses of the formula. -/
structure Renders {σ : Type} (f : Formula) (s : Solver σ) : Prop where
  models : ∀ assignment, f.SatisfiedBy assignment ↔
    s.hasEmptyClause = false ∧ s.work.db.SatisfiedBy assignment
  emptied : s.hasEmptyClause = f.hasEmptyClause
  made : List.Forall₂ Clause.MadeFrom s.work.db.clauses.toList (f.clauses.toList.filter (Contingent ·))
  proper : ∀ c ∈ s.work.db.clauses.toList, c.lits.Nodup ∧ Contingent c.lits
  kept : s.work.stats.clauses = s.work.db.size
  counted : s.work.stats.clauses + s.work.stats.tautologies + f.clauses.toList.countP List.isEmpty = f.size

/-- The tables of a solver over the variables are within `byteLimit`, the largest size a table can be
addressed with: the watch lists, where they are in use, and the counts of occurrences. How much memory
there is does not enter, and the other tables that grow with the variables, the trail and the queue of
candidates, are not counted. -/
def HasRoom (config : Config) (vars : Nat) : Prop :=
  Propagator.HasRoom config.propagation vars ∧ vars * Occurrences.countBytes < byteLimit

variable {σ : Type} [Tracer σ] {f : Formula}

/-- Loading a formula preserves its meaning, whatever the formula. It fails only if a table counted in
`HasRoom` is past the size that can be addressed, and then with that fault. -/
theorem new_renders (built : f.Built) (config : Config) (tracer : σ) :
    (HasRoom config f.varCount → Yields (new config f tracer) (Renders f)) ∧
      (¬ HasRoom config f.varCount → new config f tracer = .error .tableTooLarge) := by
  rw [new]
  by_cases room : Propagator.HasRoom config.propagation f.varCount
  · obtain ⟨p, made, -, stocked⟩ := Propagator.empty_yields room
    have start : Loading.Loaded f.varCount [] { propagator := p, tracer } := .start stocked
    obtain ⟨loading, added, loaded, -⟩ := start.addAll_yields f.clauses.toList built.inRange
    have sifted := (Loading.Sifted.start p tracer).addAll f.clauses.toList added
    simp only [made, added, ok_bind]
    rw [List.nil_append] at loaded sifted
    refine ⟨fun fits => ?_, fun roomless => ?_⟩
    · obtain ⟨b, started, -⟩ := Branching.new_yields_of_zero config.decisions
        (Branching.inRange_inputs loaded.wellFormed) (Branching.Occurrences.zero_of_lt fits.2)
      rw [started, ok_bind]
      refine yields_pure_iff.mpr ⟨fun assignment => ?_, loaded.emptied_eq, sifted.made, sifted.proper,
        sifted.kept, sifted.counted⟩
      rw [Formula.satisfiedBy_iff, ← loaded.models, loaded.emptied_eq]
    · rw [Branching.new_of_not_lt _ _ fun fits => roomless ⟨room, fits⟩]
      rfl
  · refine ⟨fun fits => (room fits.1).elim, fun _ => ?_⟩
    rw [Propagator.empty_of_not_hasRoom room]
    rfl

theorem new_renders_assorted : assorted.Built ∧ HasRoom {} assorted.varCount ∧
    ∃ s : Solver Recorder, new {} assorted (Recorder.mk #[]) = .ok s ∧ s.Renders assorted ∧
      s.work.db.clauses.toList.map Clause.lits = [[⟨1, false⟩, ⟨0, false⟩], [⟨0, true⟩]] := by
  have room : HasRoom {} assorted.varCount := ⟨fun _ => by decide, by decide⟩
  obtain ⟨s, made, renders⟩ := (new_renders assorted_built {} (Recorder.mk #[])).1 room
  have loaded : (new {} assorted (Recorder.mk #[])).map (·.work.db.clauses.toList.map Clause.lits) =
      .ok [[⟨1, false⟩, ⟨0, false⟩], [⟨0, true⟩]] := by
    decide +kernel
  rw [made] at loaded
  exact ⟨assorted_built, room, s, made, renders, Except.ok.inj loaded⟩

end Solver

end ClauseLearning
