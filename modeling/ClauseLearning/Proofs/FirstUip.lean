import ClauseLearning.Proofs.Conflict.Survey
import ClauseLearning.Proofs.Learning
import ClauseLearning.Proofs.Trail.InUse

/-! # What the analysis of a conflict finds

Whatever the clauses and the trail are, as long as implied entries have their reasons below them and the
falsified clause has a literal of the current level, analysis succeeds. What it learns is asserting: one
literal of the current level comes first, the others are of lower levels, and the second one is of the level
to return to. The first literal belongs to the first unique implication point, that is, to the latest entry
through which all paths from the decision of the level to the conflict run, and the others are exactly the
literals of lower levels in the clauses on the side of the conflict.
-/

namespace ClauseLearning

/-- A clause whose literals all fail, one of them at the current level, which is not the lowest, and a trail
on which every implied entry has its reason below it. The tables of the trail are coherent, as they are
whatever the trail has been used for (`Trail.InUse.coherent`). -/
structure Conflicting (conflict : Nat) (db : Database) (t : Trail) : Prop where
  coherent : t.Coherent
  grounded : Grounded db t.stack
  above : 0 < t.level
  fails : ∀ l ∈ db.litsOf conflict, t.valueOf l = .ok .fails
  current : ∃ l ∈ db.litsOf conflict, t.levelOf l.var = .ok (some t.level)

/-- A clause that asserts its first literal after the return to the highest level of the others. -/
structure Analysis.IsAsserting (analysis : Analysis) (t : Trail) : Prop where
  distinct : (analysis.learned.map Lit.var).Nodup
  fails : ∀ l ∈ analysis.learned, t.valueOf l = .ok .fails
  first : ∃ l, analysis.learned.head? = some l ∧ t.levelOf l.var = .ok (some t.level)
  others : ∀ l ∈ analysis.learned.tail, ∃ level, t.levelOf l.var = .ok (some level) ∧
    1 ≤ level ∧ level < t.level
  bottom : analysis.learned.tail = [] → analysis.backtrackLevel = 0
  highest : ∀ l ∈ analysis.learned.tail, ∀ level, t.levelOf l.var = .ok (some level) →
    level ≤ analysis.backtrackLevel
  lower : analysis.backtrackLevel < t.level
  second : ∀ l, analysis.learned[1]? = some l → t.levelOf l.var = .ok (some analysis.backtrackLevel)

/-- The entry at a place is the first unique implication point of a conflict, and what is learned is the cut
above it. -/
structure Analysis.IsFirstCut (analysis : Analysis) (conflict : Nat) (db : Database) (t : Trail)
    (place : Nat) (uip : Assignment) : Prop where
  found : t.entries[place]? = some uip
  current : uip.level = t.level
  head_eq : analysis.learned.head? = some uip.lit.negate
  /-- There is a path from the decision to the conflict, and all of them run through the entry. -/
  reached : ∃ start rest, start.reason = .decision ∧ Path conflict db t.stack (start :: rest)
  dominates : Dominates conflict db t.stack uip
  latest : ∀ (later : Nat) (a : Assignment), t.entries[later]? = some a →
    Dominates conflict db t.stack a → later ≤ place
  distinct : analysis.learned.tail.Nodup
  /-- The other literals are those of the levels between that occur beyond the entry. -/
  mem_tail_iff : ∀ l, l ∈ analysis.learned.tail ↔
    (∃ level, t.levelOf l.var = .ok (some level) ∧ 1 ≤ level ∧ level < t.level) ∧
      OccursBeyond conflict db t.stack uip l
  /-- What comes after the entry on its paths to the conflict is all that is later and has such a path. -/
  beyond_iff : ∀ (later : Nat) (a : Assignment), t.entries[later]? = some a →
    ((∃ rest, Path conflict db t.stack (uip :: rest) ∧ a ∈ rest) ↔
      place < later ∧ Reaches conflict db t.stack a)

section Conflict
variable {conflict : Nat} {db : Database} {t : Trail} {analysis : Analysis}
  {start work : WorkingClause} {uip : Assignment} {below : List Assignment} {rest : List Lit}

namespace Conflicting

theorem stacked (conflicting : Conflicting conflict db t) : Stacked t.stack := conflicting.coherent.stacked

theorem height_pos (conflicting : Conflicting conflict db t) : 0 < height t.stack :=
  conflicting.coherent.level_eq ▸ conflicting.above

theorem failsOn (conflicting : Conflicting conflict db t) : ∀ l ∈ db.litsOf conflict, l.FailsOn t.stack :=
  fun l member => conflicting.coherent.valueOf_eq_fails_iff.mp (conflicting.fails l member)

/-- Analysis of a conflict succeeds, by a walk down the trail. -/
theorem exists_follows (conflicting : Conflicting conflict db t) :
    ∃ analysis steps start uip below work rest, analyze conflict db t = .ok (.ok analysis, steps) ∧
      analysis.Follows conflict db t start uip below work rest := by
  have coherent := conflicting.coherent
  have current : ∃ l ∈ db.litsOf conflict, ∃ b ∈ t.stack, b.lit = l.negate ∧
      b.level = height t.stack := by
    obtain ⟨l, member, level⟩ := conflicting.current
    obtain ⟨b, listed, negated⟩ := conflicting.failsOn l member
    rw [coherent.levelOf_eq_of_lit_eq_negate listed negated, coherent.level_eq] at level
    exact ⟨l, member, b, listed, negated, Option.some.inj (Except.ok.inj level)⟩
  obtain ⟨⟨outcome, steps⟩, analyzed, analysis, start, uip, below, work, rest, rfl, follows⟩ :=
    analyze_follows coherent conflicting.grounded conflicting.height_pos conflicting.failsOn current
  exact ⟨analysis, steps, start, uip, below, work, rest, analyzed, follows⟩

end Conflicting

/-- What the walk leads to is asserting. -/
theorem Analysis.Follows.isAsserting (follows : analysis.Follows conflict db t start uip below work rest)
    (conflicting : Conflicting conflict db t) : analysis.IsAsserting t := by
  have coherent := conflicting.coherent
  have stacked := conflicting.stacked
  have fails := follows.fails stacked
  have learnedEq := follows.learned_eq
  have tailEq : analysis.learned.tail = rest := by rw [learnedEq, List.tail_cons]
  have level : ∀ l ∈ rest, ∃ level, t.levelOf l.var = .ok (some level) ∧ (1 ≤ level ∧ level < t.level) ∧
      (levelOn t.stack l.var).getD 0 = level := by
    intro l member
    obtain ⟨b, listed, negated, raised, under, value⟩ := follows.failed_below stacked member
    exact ⟨b.level, coherent.levelOf_eq_of_lit_eq_negate listed negated,
      ⟨raised, coherent.level_eq ▸ under⟩, by rw [value, Option.getD_some]⟩
  refine {
    distinct := stacked.nodup_vars_of_failsOn (learnedEq ▸ follows.nodup stacked) fails
    fails := fun l member => coherent.valueOf_eq_fails_iff.mpr (fails l member)
    first := ⟨uip.lit.negate, by rw [learnedEq, List.head?_cons], ?first⟩
    others := ?others
    bottom := fun empty => follows.bottom (tailEq ▸ empty)
    highest := ?highest
    lower := coherent.level_eq ▸ follows.lower stacked conflicting.height_pos
    second := ?second }
  case first =>
    rw [coherent.level_eq, ← follows.level_eq]
    exact coherent.levelOf_eq_of_lit_eq_negate follows.mem (uip.lit.negate_negate).symm
  case others =>
    rw [tailEq]
    intro l member
    obtain ⟨k, found, between, -⟩ := level l member
    exact ⟨k, found, between⟩
  case highest =>
    rw [tailEq]
    intro l member k found
    obtain ⟨k', found', -, value⟩ := level l member
    rw [found'] at found
    cases found
    exact value ▸ follows.greatest l member
  case second =>
    intro second there
    rw [learnedEq, List.getElem?_cons_succ, ← List.head?_eq_getElem?] at there
    obtain ⟨k, found, -, value⟩ := level second (List.mem_of_mem_head? there)
    rw [found, ← follows.latest second there, value]

/-- Over the variables from zero on, a decision of `x2` implies `x3`, and that both `x4` and `x5`, which
falsify a clause together. The literals `x0` and `x1` failed before, and `x6` is beside the point. -/
def diamond : Database where
  clauses := #[⟨[⟨2, true⟩, ⟨3, false⟩], .input⟩, ⟨[⟨3, true⟩, ⟨0, false⟩, ⟨4, false⟩], .input⟩,
    ⟨[⟨3, true⟩, ⟨5, false⟩], .input⟩, ⟨[⟨4, true⟩, ⟨5, true⟩, ⟨1, false⟩], .input⟩,
    ⟨[⟨5, true⟩, ⟨6, false⟩], .input⟩]

theorem diamond_conflicting : ∃ t : Trail, Conflicting 3 diamond t ∧ Connected diamond t.stack ∧
    (analyze 3 diamond t).map Prod.fst =
      .ok (.ok ⟨[⟨3, true⟩, ⟨1, false⟩, ⟨0, false⟩], 2⟩) := by
  have start : Trail.InUse 7 (.empty 7) := .empty
  have lower := (start.choose ⟨0, true⟩ rfl).choose ⟨1, true⟩ rfl
  have chosen := (lower.choose ⟨2, false⟩ rfl).imply ⟨3, false⟩ 0 rfl
  have split := (chosen.imply ⟨4, false⟩ 1 rfl).imply ⟨5, false⟩ 2 rfl
  have inUse := split.imply ⟨6, false⟩ 4 rfl
  exact ⟨_, ⟨inUse.coherent.1, by decide +kernel, by decide +kernel, by decide +kernel,
    by decide +kernel⟩, by decide +kernel, by decide +kernel⟩

/-- Analysis of a conflict succeeds with an asserting clause. -/
theorem analyze_asserting (conflicting : Conflicting conflict db t) :
    ∃ analysis steps, analyze conflict db t = .ok (.ok analysis, steps) ∧ analysis.IsAsserting t := by
  obtain ⟨analysis, steps, start, uip, below, work, rest, analyzed, follows⟩ :=
    conflicting.exists_follows
  exact ⟨analysis, steps, analyzed, follows.isAsserting conflicting⟩

theorem analyze_asserting_diamond : ∃ (t : Trail) (steps : List Resolution), Conflicting 3 diamond t ∧
    analyze 3 diamond t = .ok (.ok ⟨[⟨3, true⟩, ⟨1, false⟩, ⟨0, false⟩], 2⟩, steps) ∧
      Analysis.IsAsserting ⟨[⟨3, true⟩, ⟨1, false⟩, ⟨0, false⟩], 2⟩ t := by
  obtain ⟨t, conflicting, -, outcome⟩ := diamond_conflicting
  obtain ⟨analysis, steps, analyzed, asserting⟩ := analyze_asserting conflicting
  rw [analyzed] at outcome
  cases outcome
  exact ⟨t, steps, conflicting, analyzed, asserting⟩

namespace Analysis.Follows

/-- The walk keeps the survey right down to the implication point. -/
theorem surveyed (follows : analysis.Follows conflict db t start uip below work rest)
    (conflicting : Conflicting conflict db t) : Surveyed conflict db t (uip :: below) work :=
  follows.walk.keeps List.suffix_rfl
    (fun within reflects level step surveyed => surveyed.step conflicting.stacked conflicting.grounded
      conflicting.height_pos within reflects level step)
    (surveyed_stack conflicting.stacked conflicting.failsOn follows.marks_iff)

/-- The literals but the first are those that failed at lower levels through exposed entries. -/
theorem mem_rest_iff (follows : analysis.Follows conflict db t start uip below work rest)
    (stacked : Stacked t.stack) (surveyed : Surveyed conflict db t (uip :: below) work) {l : Lit} :
    l ∈ rest ↔ ∃ b ∈ t.stack, b.lit = l.negate ∧ (0 < b.level ∧ b.level < height t.stack) ∧
      Exposed conflict db t.stack (uip :: below) b := by
  have reflects := follows.point.reflects
  rw [follows.perm.mem_iff, reflects.mem_lower_iff, reflects.level_eq]
  refine exists_congr fun b => and_congr_right fun listed => and_congr_right fun _ => ?_
  have marks : b.level < height t.stack → 0 < b.level →
      (work.Marks b.var ↔ Exposed conflict db t.stack (uip :: below) b) := by
    intro under raised
    rw [← follows.level_eq] at under
    have kept := stacked.mem_of_level_lt follows.walk.suffix listed under
    exact surveyed.marks_iff b (List.mem_cons_of_mem _ kept) raised
  constructor
  · rintro ⟨under, marked⟩
    obtain ⟨c, listed', same, raised⟩ := reflects.raised _ marked
    obtain rfl := stacked.eq_of_var_eq listed' listed same
    exact ⟨⟨raised, under⟩, (marks under raised).mp marked⟩
  · rintro ⟨⟨raised, under⟩, exposed⟩
    exact ⟨under, (marks under raised).mpr exposed⟩

/-- A literal of a level in between is learned if and only if it occurs beyond the implication point. -/
theorem mem_rest_iff_occursBeyond (follows : analysis.Follows conflict db t start uip below work rest)
    (conflicting : Conflicting conflict db t) (connected : Connected db t.stack) {l : Lit} :
    l ∈ rest ↔ (∃ level, t.levelOf l.var = .ok (some level) ∧ 1 ≤ level ∧ level < t.level) ∧
      OccursBeyond conflict db t.stack uip l := by
  have surveyed := follows.surveyed conflicting
  have coherent := conflicting.coherent
  have stacked := conflicting.stacked
  have exposed := fun {a} member negated lower => surveyed.exposed_iff (a := a) (l := l) follows.point
    conflicting.height_pos stacked conflicting.grounded connected follows.walk.suffix member negated lower
  rw [follows.mem_rest_iff stacked surveyed, coherent.level_eq]
  constructor
  · rintro ⟨b, listed, negated, between, through⟩
    exact ⟨⟨b.level, coherent.levelOf_eq_of_lit_eq_negate listed negated, between⟩,
      (exposed listed negated between.2).mp through⟩
  · rintro ⟨⟨level, found, between⟩, occurs⟩
    have failed : l.FailsOn t.stack := by
      refine occurs.failsOn conflicting.grounded conflicting.failsOn fun a member top same => ?_
      subst same
      have level' := coherent.levelOf_eq (coherent.var_lt member)
      rw [stacked.levelOn_eq member] at level'
      cases level'.symm.trans found
      omega
    obtain ⟨b, listed, negated⟩ := failed
    rw [coherent.levelOf_eq_of_lit_eq_negate listed negated] at found
    cases found
    exact ⟨b, listed, negated, between, (exposed listed negated between.2).mpr occurs⟩

/-- In a connected trail the walk ends at the first unique implication point, with the cut above it. -/
theorem isFirstCut (follows : analysis.Follows conflict db t start uip below work rest)
    (conflicting : Conflicting conflict db t) (connected : Connected db t.stack) :
    analysis.IsFirstCut conflict db t below.length uip := by
  have surveyed := follows.surveyed conflicting
  have point := follows.point
  have above := conflicting.height_pos
  have stacked := conflicting.stacked
  have grounded := conflicting.grounded
  have within := follows.walk.suffix
  have later : ∀ (place : Nat) (a : Assignment), t.entries[place]? = some a →
      (a ∈ uip :: below ↔ place ≤ below.length) := fun place a found =>
    (conflicting.coherent.mem_suffix_iff within found).trans Nat.lt_succ_iff
  refine {
    found := Trail.getElem?_of_suffix within
    current := follows.level_eq.trans conflicting.coherent.level_eq.symm
    head_eq := by rw [follows.learned_eq, List.head?_cons]
    reached := ?reached
    dominates := surveyed.dominates point above stacked within
    latest := ?latest
    distinct := ?distinct
    mem_tail_iff := ?mem_tail_iff
    beyond_iff := ?beyond_iff }
  case reached =>
    obtain ⟨onward, path⟩ := surveyed.reaches point above stacked grounded within
    obtain ⟨start, front, decision, longer, -⟩ := connected.exists_path_from_decision stacked grounded
      above within (List.mem_cons_self ..) path
    exact ⟨start, front, decision, longer⟩
  case latest =>
    intro place a found dominates
    have member := Trail.mem_stack_iff.mpr ⟨place, found⟩
    exact (later place a found).mp (surveyed.mem_of_dominates point above stacked grounded connected
      within member dominates)
  case distinct =>
    rw [follows.learned_eq, List.tail_cons]
    exact (follows.nodup stacked).of_cons
  case mem_tail_iff =>
    rw [follows.learned_eq, List.tail_cons]
    exact fun l => follows.mem_rest_iff_occursBeyond conflicting connected
  case beyond_iff =>
    intro place a found
    rw [← surveyed.passed_iff point above stacked grounded connected within, later place a found,
      Nat.not_le]

end Analysis.Follows

end Conflict

namespace Solver
variable {σ : Type} [Tracer σ] {vars : Nat} {f : Formula} {config : Config} {phase : Phase} {s : Solver σ}
  {start : Database} {p : Propagator} {db : Database} {t : Trail}

/-- At the moments that a step of an unfinished search passes through, the levels below the current one are
closed. -/
private theorem Consistent.settledOn_cut (consistent : Consistent vars config start phase s)
    (going : phase.isFinished = false) (passes : s.Passes phase p db t) :
    Intact vars start db t ∧ ∀ k < height t.stack, db.SettledOn (cut k t.stack) := by
  have valid := consistent.valid going
  cases passes with
  | between => exact ⟨consistent.intact, fun _ => valid.settledOn_cut going⟩
  | propagating underway =>
    obtain ⟨safe, advanced, -⟩ := underway.midway (valid.2.safe consistent.intact.sound)
    refine ⟨consistent.intact.advanced safe.sound advanced, fun k below => ?_⟩
    rw [advanced.height_eq] at below
    exact advanced.settledOn_cut below (valid.settledOn_cut going below)
  | @returned analysis =>
    have returned := consistent.intact.coherent.backTo analysis.backtrackLevel
    have lower := valid.2.1.lower
    refine ⟨consistent.intact.returned returned, fun k below => ?_⟩
    rw [returned.stack_eq] at below ⊢
    rw [consistent.intact.coherent.stacked.height_cut (Nat.le_of_lt lower)] at below
    rw [cut_cut (Nat.le_of_lt below)]
    exact valid.settledOn_cut going (Nat.lt_trans below lower)

/-- At every moment of a search each implied entry is fed from its own level. -/
theorem Reachable.connected (built : f.Built) (reachable : Reachable f config phase s)
    (passes : s.Passes phase p db t) : Connected db t.stack := by
  have settled : ∀ {start : Database} {phase : Phase} {s : Solver σ} {p : Propagator} {db : Database}
      {t : Trail}, Consistent f.varCount config start phase s → phase.isFinished = false →
      s.Passes phase p db t → Connected db t.stack := by
    intro start phase s p db t consistent going passes
    obtain ⟨intact, closed⟩ := consistent.settledOn_cut going passes
    exact connected_of_settledOn intact.coherent.stacked intact.grounded closed
  obtain ⟨⟨start, consistent⟩, connected⟩ := reachable.consistent_and
    (fun _ s => Connected s.work.db s.work.trail.stack) built
    (fun _ loaded => settled loaded.consistent rfl .between) fun _ consistent' move connected => by
      cases move with
      | still _ dbEq trailEq _ => rwa [dbEq, trailEq]
      | decided => exact settled consistent' rfl .between
      | @propagated conflict => cases conflict <;> exact settled consistent' rfl .between
      | learned => exact settled consistent' rfl .between
  cases passes with
  | between => exact connected
  | propagating underway => exact settled consistent rfl (.propagating underway)
  | returned => exact settled consistent rfl .returned

end Solver

/-- Where every implied entry is fed from its own level, analysis finds the first unique implication point
and learns exactly its cut. At every moment of a search the entries are fed so. -/
theorem first_uip :
    (∀ {conflict : Nat} {db : Database} {t : Trail}, Conflicting conflict db t → Connected db t.stack →
      ∃ analysis steps place uip, analyze conflict db t = .ok (.ok analysis, steps) ∧
        analysis.IsFirstCut conflict db t place uip) ∧
    (∀ {σ : Type} [Tracer σ] {f : Formula} {config : Config} {phase : Phase} {s : Solver σ}
      {p : Propagator} {db : Database} {t : Trail}, f.Built → Solver.Reachable f config phase s →
      s.Passes phase p db t → Connected db t.stack) := by
  refine ⟨fun conflicting connected => ?_, fun built reachable passes => reachable.connected built passes⟩
  obtain ⟨analysis, steps, start, uip, below, work, rest, analyzed, follows⟩ :=
    conflicting.exists_follows
  exact ⟨analysis, steps, below.length, uip, analyzed, follows.isFirstCut conflicting connected⟩

theorem first_uip_diamond :
    (∃ (t : Trail) (steps : List Resolution) (place : Nat) (uip : Assignment), Conflicting 3 diamond t ∧
      Connected diamond t.stack ∧
      analyze 3 diamond t = .ok (.ok ⟨[⟨3, true⟩, ⟨1, false⟩, ⟨0, false⟩], 2⟩, steps) ∧
      uip.lit = ⟨3, false⟩ ∧
      Analysis.IsFirstCut ⟨[⟨3, true⟩, ⟨1, false⟩, ⟨0, false⟩], 2⟩ 3 diamond t place uip) ∧
    detour.Built ∧ ∃ (s : Solver Recorder) (conflict : Nat),
      Solver.Reachable detour {} (.analyzing conflict) s ∧ s.work.trail.level = 1 ∧
      Connected s.work.db s.work.trail.stack := by
  constructor
  · obtain ⟨t, conflicting, connected, outcome⟩ := diamond_conflicting
    obtain ⟨analysis, steps, place, uip, analyzed, cut⟩ := first_uip.1 conflicting connected
    rw [analyzed] at outcome
    cases outcome
    have literal : uip.lit.negate = ⟨3, true⟩ := (Option.some.inj cut.head_eq).symm
    exact ⟨t, steps, place, uip, conflicting, connected, analyzed,
      Lit.negate_injective (literal.trans rfl), cut⟩
  · obtain ⟨s, conflict, reachable, level⟩ := Solver.detour_reachable_analyzing
    exact ⟨detour_built, s, conflict, reachable, level,
      first_uip.2 detour_built reachable .between⟩

end ClauseLearning
