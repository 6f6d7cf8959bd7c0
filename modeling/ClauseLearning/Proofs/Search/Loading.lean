import ClauseLearning.Proofs.Input.Built
import ClauseLearning.Proofs.Search.Run

/-! # Loading a formula

What is loaded has the models of the formula, empty clauses aside, although repeated literals and
tautologies go. The solver that comes out is ready to propagate: clauses of one literal are pending,
all others are watched, and every variable is a candidate.
-/

namespace ClauseLearning

variable {σ : Type}

/-- The clause has a literal, and none together with its negation, so that some assignments satisfy it and
others do not. -/
def Contingent (lits : List Lit) : Prop := lits ≠ [] ∧ ∀ l ∈ lits, l.negate ∉ lits

instance : DecidablePred Contingent := fun _ => instDecidableAnd

/-- Every assignment satisfies a clause that has a literal together with its negation. -/
theorem satisfies_of_negate_mem {lits : List Lit} {l : Lit} (member : l ∈ lits)
    (negated : l.negate ∈ lits) (assignment : Nat → Bool) : Satisfies assignment lits := by
  cases holds : l.isTrue assignment with
  | true => exact ⟨l, member, holds⟩
  | false => exact ⟨l.negate, negated, by rw [Lit.isTrue_negate, holds]; rfl⟩

/-- Repetitions make no difference to whether a clause is a tautology. -/
theorem Clause.isTautology_ofLits_iff {lits : List Lit} {kind : ClauseKind} :
    (Clause.ofLits lits kind).isTautology = true ↔ ∃ l ∈ lits, l.negate ∈ lits := by
  simp [isTautology, ofLits]

/-- A clause is empty, a tautology, or contingent. -/
theorem contingent_cases (lits : List Lit) :
    lits = [] ∨ (∃ l ∈ lits, l.negate ∈ lits) ∨ Contingent lits := by
  by_cases empty : lits = []
  · exact .inl empty
  by_cases tautology : ∃ l ∈ lits, l.negate ∈ lits
  · exact .inr (.inl tautology)
  · exact .inr (.inr ⟨empty, fun l member negated => tautology ⟨l, member, negated⟩⟩)

namespace Loading
variable [Tracer σ] {lits : List Lit}

/-- An empty clause is remembered. -/
theorem add_nil (loading : Loading σ) :
    loading.add [] = .ok { loading with hasEmptyClause := true } := rfl

/-- A tautology is counted and dropped. -/
theorem add_of_tautology (loading : Loading σ) (tautology : ∃ l ∈ lits, l.negate ∈ lits) :
    loading.add lits = .ok { loading with
      stats := { loading.stats with tautologies := loading.stats.tautologies + 1 }
      tracer := Tracer.message (.droppedTautology (.ofLits lits .input)) loading.tracer } := by
  have filled : lits ≠ [] := by
    obtain ⟨l, member, -⟩ := tautology
    exact List.ne_nil_of_mem member
  have notEmpty : (Clause.ofLits lits .input).isEmpty = false := by
    simpa [Clause.ofLits, Clause.isEmpty] using filled
  simp only [add, notEmpty, Clause.isTautology_ofLits_iff.mpr tautology, Bool.false_eq_true, if_false,
    if_true]
  rfl

/-- Every other clause enters the database without its repetitions and is attached. -/
theorem add_of_contingent (loading : Loading σ) (contingent : Contingent lits) :
    loading.add lits = (do
      let propagator ← loading.propagator.attach loading.db.size (loading.db.addInput lits)
      return { loading with
        db := loading.db.addInput lits
        propagator
        stats := { loading.stats with
          clauses := loading.stats.clauses + 1
          clauseLits := loading.stats.clauseLits + lits.eraseDups.length } }) := by
  have notEmpty : (Clause.ofLits lits .input).isEmpty = false := by
    simpa [Clause.ofLits, Clause.isEmpty] using contingent.1
  have notTautology : ¬ (Clause.ofLits lits .input).isTautology = true := fun tautology => by
    obtain ⟨l, member, negated⟩ := Clause.isTautology_ofLits_iff.mp tautology
    exact contingent.2 l member negated
  have once : loading.db.addInput (Clause.ofLits lits .input).lits = loading.db.addInput lits :=
    loading.db.addInput_eraseDups lits
  simp only [add, notEmpty, notTautology, Bool.false_eq_true, if_false, once]
  rfl

end Loading

/-- What holds once some clauses of the formula have been loaded. -/
structure Loading.Loaded (vars : Nat) (done : List (List Lit)) (loading : Loading σ) : Prop where
  wellFormed : loading.db.WellFormed vars
  emptied : loading.hasEmptyClause = true ↔ [] ∈ done
  models : ∀ assignment, loading.db.SatisfiedBy assignment ↔
    ∀ lits ∈ done, lits ≠ [] → Satisfies assignment lits
  stocked : loading.propagator.Stocked loading.db vars

namespace Loading.Loaded
variable [Tracer σ] {vars : Nat} {done : List (List Lit)} {loading : Loading σ}

/-- Loading a clause takes account of it, whether it is kept or dropped. -/
theorem add_yields (loaded : loading.Loaded vars done) {lits : List Lit}
    (inRange : ∀ l ∈ lits, l.var < vars) :
    Yields (loading.add lits) fun loading' => loading'.Loaded vars (done ++ [lits]) ∧
      loading'.propagator.mode = loading.propagator.mode := by
  have unemptied (nonempty : lits ≠ []) : loading.hasEmptyClause = true ↔ [] ∈ done ++ [lits] := by
    rw [List.mem_append, List.mem_singleton, ← loaded.emptied]
    exact (or_iff_left nonempty.symm).symm
  rcases contingent_cases lits with rfl | tautology | contingent
  · rw [add_nil]
    refine yields_ok_iff.mpr ⟨⟨loaded.wellFormed, by simp, fun assignment => ?_, loaded.stocked⟩, rfl⟩
    rw [loaded.models]
    simp [or_imp, forall_and]
  · rw [add_of_tautology loading tautology]
    obtain ⟨l, member, negated⟩ := tautology
    refine yields_ok_iff.mpr ⟨⟨loaded.wellFormed, unemptied (List.ne_nil_of_mem member),
      fun assignment => ?_, loaded.stocked⟩, rfl⟩
    rw [loaded.models]
    simp [or_imp, forall_and, satisfies_of_negate_mem member negated]
  · rw [add_of_contingent loading contingent]
    have extended := loading.db.extended_addInput lits
    apply (loaded.stocked.attach_yields inRange).bind
    rintro p ⟨modeEq, stocked⟩
    refine yields_pure_iff.mpr ⟨⟨?_, unemptied contingent.1, fun assignment => ?_, stocked⟩, modeEq⟩
    · exact extended.wellFormed loaded.wellFormed (fun none => contingent.1 (eraseDups_eq_nil_iff.mp none))
        (nodup_eraseDups lits) fun l member => inRange l (List.mem_eraseDups.mp member)
    · have same : Satisfies assignment lits.eraseDups ↔ Satisfies assignment lits :=
        Clause.satisfies_ofLits assignment lits .input
      rw [extended.satisfiedBy_iff, same, loaded.models]
      simp [or_imp, forall_and, contingent.1]

/-- All clauses of the formula are loaded in turn. -/
theorem addAll_yields (clauses : List (List Lit)) (loaded : loading.Loaded vars done)
    (inRange : ∀ lits ∈ clauses, ∀ l ∈ lits, l.var < vars) :
    Yields (Loading.addAll clauses loading) fun loading' =>
      loading'.Loaded vars (done ++ clauses) ∧
        loading'.propagator.mode = loading.propagator.mode := by
  induction clauses generalizing loading done with
  | nil =>
    rw [List.append_nil]
    exact yields_pure_iff.mpr ⟨loaded, rfl⟩
  | cons lits rest ih =>
    apply (loaded.add_yields (inRange lits (List.mem_cons_self ..))).bind
    rintro middle ⟨loaded', modeEq⟩
    rw [List.append_cons, ← modeEq]
    exact ih loaded' fun others member => inRange others (List.mem_cons_of_mem _ member)

end Loading.Loaded

/-- Nothing has been loaded at the start. -/
theorem Loading.Loaded.start {vars : Nat} {p : Propagator} {tracer : σ} (stocked : p.Stocked {} vars) :
    Loading.Loaded vars [] ({ propagator := p, tracer } : Loading σ) :=
  ⟨Database.wellFormed_empty vars, by simp, by simp [Database.SatisfiedBy], stocked⟩

/-- What has been loaded is ready for propagation. -/
theorem Loading.Loaded.valid {vars : Nat} {done : List (List Lit)} {loading : Loading σ}
    (loaded : loading.Loaded vars done) :
    Phase.propagating.Valid vars loading.db loading.db (.empty vars) loading.propagator :=
  ⟨⟨Trail.coherent_empty vars, Trail.varCount_empty vars, loaded.wellFormed, trivial, fun _ => .rfl⟩,
    loaded.stocked.ready⟩

/-- Whether an empty clause came up is whether the formula has one. -/
theorem Loading.Loaded.emptied_eq {vars : Nat} {f : Formula} {loading : Loading σ}
    (loaded : loading.Loaded vars f.clauses.toList) : loading.hasEmptyClause = f.hasEmptyClause := by
  rw [Bool.eq_iff_iff, loaded.emptied, Formula.hasEmptyClause, List.any_eq_true]
  simp

/-- The clauses loaded are those of the given clauses that are contingent, in their order and without
repetitions, and the counters say what became of all others. -/
structure Loading.Sifted (done : List (List Lit)) (loading : Loading σ) : Prop where
  clauses_eq : loading.db.clauses.toList = (done.filter (Contingent ·)).map (Clause.ofLits · .input)
  kept : loading.stats.clauses = loading.db.size
  counted : loading.stats.clauses + loading.stats.tautologies + done.countP List.isEmpty = done.length

namespace Loading.Sifted
variable [Tracer σ] {done : List (List Lit)} {loading loading' : Loading σ}

omit [Tracer σ] in
/-- Nothing has been loaded at the start. -/
theorem start (p : Propagator) (tracer : σ) :
    Loading.Sifted [] ({ propagator := p, tracer } : Loading σ) := ⟨rfl, rfl, rfl⟩

/-- Loading a clause keeps it unless it is empty or a tautology. -/
theorem add (sifted : loading.Sifted done) {lits : List Lit}
    (added : loading.add lits = .ok loading') : loading'.Sifted (done ++ [lits]) := by
  obtain ⟨clausesEq, kept, counted⟩ := sifted
  rcases contingent_cases lits with rfl | tautology | contingent
  · rw [add_nil] at added
    cases added
    refine ⟨?_, kept, ?_⟩
    · simpa [Contingent] using clausesEq
    · rw [List.countP_append, List.length_append, ← counted]
      exact (Nat.add_assoc ..).symm
  · rw [add_of_tautology loading tautology] at added
    cases added
    obtain ⟨l, member, negated⟩ := tautology
    have dropped : ¬ Contingent lits := fun contingent => contingent.2 l member negated
    refine ⟨?_, kept, ?_⟩
    · simpa [dropped] using clausesEq
    · have filled : lits ≠ [] := List.ne_nil_of_mem member
      have unchanged : (done ++ [lits]).countP List.isEmpty = done.countP List.isEmpty := by simp [filled]
      simp only [unchanged, List.length_append, List.length_singleton]
      omega
  · rw [add_of_contingent loading contingent] at added
    obtain ⟨p, -, same⟩ := Checked.bind_eq_ok_iff.mp added
    cases same
    refine ⟨?_, ?_, ?_⟩
    · simp [Database.addInput, contingent, clausesEq]
    · simp [Database.addInput, Database.size, kept]
    · have unchanged : (done ++ [lits]).countP List.isEmpty = done.countP List.isEmpty := by
        simp [contingent.1]
      simp only [unchanged, List.length_append, List.length_singleton]
      omega

theorem addAll (clauses : List (List Lit)) (sifted : loading.Sifted done)
    (added : Loading.addAll clauses loading = .ok loading') : loading'.Sifted (done ++ clauses) := by
  induction clauses generalizing loading done with
  | nil =>
    cases added
    simpa using sifted
  | cons lits rest ih =>
    obtain ⟨middle, first, onward⟩ := Checked.bind_eq_ok_iff.mp added
    rw [List.append_cons]
    exact ih (sifted.add first) onward

omit [Tracer σ] in
/-- Loading learns nothing. -/
theorem unlearned (sifted : loading.Sifted done) :
    ∀ c ∈ loading.db.clauses.toList, c.isLearned = false := by
  intro c listed
  rw [sifted.clauses_eq] at listed
  obtain ⟨lits, -, rfl⟩ := List.mem_map.mp listed
  rfl

omit [Tracer σ] in
/-- Every contingent clause is held. -/
theorem held (sifted : loading.Sifted done) {lits : List Lit} (given : lits ∈ done)
    (contingent : Contingent lits) : ∃ id, ∀ l, l ∈ loading.db.litsOf id ↔ l ∈ lits := by
  have listed : Clause.ofLits lits .input ∈ loading.db.clauses.toList := by
    rw [sifted.clauses_eq]
    exact List.mem_map_of_mem (List.mem_filter.mpr ⟨given, by simpa using contingent⟩)
  obtain ⟨id, inBounds, same⟩ := Database.mem_clauses_iff.mp listed
  refine ⟨id, fun l => ?_⟩
  rw [Database.litsOf_eq_of_lt inBounds, same]
  exact List.mem_eraseDups

end Loading.Sifted

/-- A solver fresh from loading a formula: its clauses say what the formula says, propagation is ready,
every variable is a candidate, and the bound on steps is enough. -/
structure Solver.Fresh (f : Formula) (config : Config) (s : Solver σ) : Prop where
  valid : s.Valid f.varCount s.work.db .propagating
  affords : s.Affords f.varCount .propagating (Solver.stepBound f.varCount)
  fit : s.branching.Fit f.varCount
  offers : s.branching.Offers f.varCount s.work.trail.stack
  models : ∀ assignment, s.work.db.SatisfiedBy assignment ↔
    ∀ lits ∈ f.clauses.toList, lits ≠ [] → Satisfies assignment lits
  emptied : s.hasEmptyClause = f.hasEmptyClause
  mode_eq : s.propagator.mode = config.propagation
  verifyModel_eq : s.verifyModel = config.verifyModel
  status_eq : s.status = none

/-- There is room for the watch lists of all variables that have literals. -/
theorem Propagator.hasRoom_of_le (mode : PropagationMode) {vars : Nat} (small : vars ≤ variableLimit) :
    HasRoom mode vars := by
  intro _
  simp only [variableLimit] at small
  simp only [literalCount, WatchTable.listBytes, byteLimit, UInt64.size]
  omega

variable [Tracer σ]

/-- Every formula that can be built can be loaded. -/
theorem Solver.new_yields {f : Formula} (built : f.Built) (small : f.varCount ≤ variableLimit)
    (config : Config) (tracer : σ) : Yields (Solver.new config f tracer) (Fresh f config) := by
  rw [Solver.new]
  apply (Propagator.empty_yields (Propagator.hasRoom_of_le config.propagation small)).bind
  rintro p ⟨modeEq, stocked⟩
  apply ((Loading.Loaded.start stocked).addAll_yields f.clauses.toList built.inRange).bind
  rintro ⟨db, p', stats, tracer', hasEmptyClause⟩ ⟨loaded, modeEq'⟩
  rw [List.nil_append] at loaded
  apply (Branching.new_yields config.decisions small loaded.wellFormed).bind
  rintro branching ⟨fit, offers⟩
  refine yields_pure_iff.mpr ⟨loaded.valid, .inl ?_, fit, offers, loaded.models, loaded.emptied_eq,
    modeEq'.trans modeEq, rfl, rfl⟩
  simp [stepBound, weight]

/-- What a solver for the formula was loaded from, over any number of variables. -/
structure Solver.LoadedFrom (f : Formula) (config : Config) (loading : Loading σ) (s : Solver σ) :
    Prop where
  loaded : loading.Loaded f.varCount f.clauses.toList
  sifted : loading.Sifted f.clauses.toList
  mode_eq : loading.propagator.mode = config.propagation
  started : s.branching.Started config.decisions f.varCount (loading.db.inputs.flatMap Clause.lits)
  listed_iff : ∀ var, (∃ c ∈ s.branching.queue.candidates, c.var = var) ↔
    var < f.varCount % Branching.varLimit
  db_eq : s.work.db = loading.db
  trail_eq : s.work.trail = .empty f.varCount
  propagator_eq : s.propagator = loading.propagator
  emptied_eq : s.hasEmptyClause = loading.hasEmptyClause
  status_eq : s.status = none

theorem Solver.exists_of_new {f : Formula} (built : f.Built) {config : Config} {tracer : σ}
    {s : Solver σ} (made : Solver.new config f tracer = .ok s) :
    ∃ loading, LoadedFrom f config loading s := by
  obtain ⟨p, madeEmpty, onward⟩ := Checked.bind_eq_ok_iff.mp made
  obtain ⟨loading, added, onward⟩ := Checked.bind_eq_ok_iff.mp onward
  obtain ⟨branching, scored, same⟩ := Checked.bind_eq_ok_iff.mp onward
  cases same
  obtain ⟨modeEq, stocked⟩ := Propagator.stocked_of_empty madeEmpty
  obtain ⟨loaded, modeEq'⟩ :=
    ((Loading.Loaded.start stocked).addAll_yields f.clauses.toList built.inRange).of_eq added
  have sifted := (Loading.Sifted.start p tracer).addAll f.clauses.toList added
  exact ⟨loading, loaded, sifted, modeEq'.trans modeEq, Branching.started_of_new loaded.wellFormed scored,
    fun _ => Branching.listed_iff_of_new loaded.wellFormed scored, rfl, rfl, rfl, rfl, rfl⟩

/-- A solver that came of loading a formula remembers its empty clauses and has no verdict yet. -/
theorem Solver.emptied_of_new {f : Formula} (built : f.Built) {config : Config} {tracer : σ}
    {s : Solver σ} (made : Solver.new config f tracer = .ok s) :
    s.hasEmptyClause = f.hasEmptyClause ∧ s.status = none := by
  obtain ⟨loading, source⟩ := exists_of_new built made
  exact ⟨source.emptied_eq.trans source.loaded.emptied_eq, source.status_eq⟩

/-- A solver that came of loading a formula, over any number of variables. -/
structure Solver.Loaded (f : Formula) (config : Config) (s : Solver σ) : Prop where
  valid : s.Valid f.varCount s.work.db .propagating
  fit : s.branching.Fit f.varCount
  mode_eq : s.propagator.mode = config.propagation
  trail_eq : s.work.trail = .empty f.varCount
  stocked : s.propagator.Stocked s.work.db f.varCount
  unlearned : ∀ c ∈ s.work.db.clauses.toList, c.isLearned = false
  held : ∀ lits ∈ f.clauses.toList, lits ≠ [] → (∀ l ∈ lits, l.negate ∉ lits) →
    ∃ id, ∀ l, l ∈ s.work.db.litsOf id ↔ l ∈ lits

theorem Solver.Loaded.of_new {f : Formula} (built : f.Built) {config : Config} {tracer : σ}
    {s : Solver σ} (made : Solver.new config f tracer = .ok s) : s.Loaded f config := by
  obtain ⟨loading, source⟩ := exists_of_new built made
  have valid : s.Valid f.varCount s.work.db .propagating := by
    rw [Valid, source.db_eq, source.trail_eq, source.propagator_eq]
    exact source.loaded.valid
  refine ⟨valid, source.started.fit, ?_, source.trail_eq, ?_, ?_, ?_⟩
  · rw [source.propagator_eq, source.mode_eq]
  · rw [source.propagator_eq, source.db_eq]
    exact source.loaded.stocked
  · rw [source.db_eq]
    exact source.sifted.unlearned
  · rw [source.db_eq]
    exact fun _ given nonempty clean => source.sifted.held given ⟨nonempty, clean⟩

end ClauseLearning
