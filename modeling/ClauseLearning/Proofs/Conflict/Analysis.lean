import ClauseLearning.Proofs.Conflict.Resolution
import ClauseLearning.Proofs.Conflict.Target
import ClauseLearning.Proofs.Propagation.Attachment

/-! # What conflict analysis learns

The clause learned follows from the database. After the return that goes with it, its first literal is
open, its others fail, and its second one failed at the level returned to, which is lower than the
level of the conflict. Analysis fails on no conflict whose levels below were closed by propagation,
since the falsified clause then has a literal of the current level.
-/

namespace ClauseLearning

/-- What analysis derives from a conflict: a consequence of the database that is asserting once the
search has gone back. -/
structure Analysis.Justified (analysis : Analysis) (db : Database) (stack : List Assignment)
    (vars : Nat) : Prop where
  lower : analysis.backtrackLevel < height stack
  asserting : ∃ first rest, analysis.learned = first :: rest ∧
    Asserting (cut analysis.backtrackLevel stack) first rest
  inRange : ∀ l ∈ analysis.learned, l.var < vars
  follows : ∀ assignment, db.SatisfiedBy assignment → Satisfies assignment analysis.learned

/-- How analysis arrives at what it learns: by a walk from the literals of the falsified clause down to an
implication point, whose other literals are put in order by level. -/
structure Analysis.Follows (analysis : Analysis) (conflict : Nat) (db : Database) (t : Trail)
    (start : WorkingClause) (uip : Assignment) (below : List Assignment) (work : WorkingClause)
    (rest : List Lit) : Prop where
  marks_iff : ∀ var, start.Marks var ↔ RaisedOn t.stack var ∧ ∃ l ∈ db.litsOf conflict, l.var = var
  walk : WorkingClause.Walk db t t.stack start (uip :: below) work
  point : WorkingClause.ImplicationPoint t uip below work
  learned_eq : analysis.learned = uip.lit.negate :: rest
  perm : rest.Perm work.lower
  bottom : rest = [] → analysis.backtrackLevel = 0
  greatest : ∀ l ∈ rest, (levelOn t.stack l.var).getD 0 ≤ analysis.backtrackLevel
  latest : ∀ second, rest.head? = some second →
    (levelOn t.stack second.var).getD 0 = analysis.backtrackLevel

section Analysis
variable {db : Database} {t : Trail} {conflict : Nat}

namespace Analysis.Follows
variable {analysis : Analysis} {uip : Assignment} {start work : WorkingClause}
  {below : List Assignment} {rest : List Lit}

theorem mem (follows : analysis.Follows conflict db t start uip below work rest) : uip ∈ t.stack :=
  follows.walk.suffix.subset (List.mem_cons_self ..)

theorem level_eq (follows : analysis.Follows conflict db t start uip below work rest) :
    uip.level = height t.stack :=
  (WorkingClause.counts_iff.mp follows.point.counted).1.trans follows.point.reflects.level_eq

/-- The literals but the first failed at lower levels above zero. -/
theorem failed_below (follows : analysis.Follows conflict db t start uip below work rest)
    (stacked : Stacked t.stack) {l : Lit} (member : l ∈ rest) :
    ∃ b ∈ t.stack, b.lit = l.negate ∧ 0 < b.level ∧ b.level < height t.stack ∧
      levelOn t.stack l.var = some b.level := by
  obtain ⟨b, listed, negated, raised, under⟩ :=
    follows.point.failed_below stacked (follows.perm.mem_iff.mp member)
  refine ⟨b, listed, negated, raised, under, ?_⟩
  rw [← Assignment.var_eq_of_lit_eq_negate negated, stacked.levelOn_eq listed]

theorem fails (follows : analysis.Follows conflict db t start uip below work rest)
    (stacked : Stacked t.stack) : ∀ l ∈ analysis.learned, l.FailsOn t.stack := by
  rw [follows.learned_eq]
  intro l member
  rcases List.mem_cons.mp member with rfl | member
  · exact failsOn_negate_iff.mpr ⟨uip, follows.mem, rfl⟩
  · obtain ⟨b, listed, negated, -⟩ := follows.failed_below stacked member
    exact ⟨b, listed, negated⟩

theorem nodup (follows : analysis.Follows conflict db t start uip below work rest)
    (stacked : Stacked t.stack) : (uip.lit.negate :: rest).Nodup := by
  refine List.nodup_cons.mpr
    ⟨fun member => ?_, follows.perm.nodup_iff.mpr follows.point.reflects.distinct⟩
  obtain ⟨b, listed, same, -, under, -⟩ := follows.failed_below stacked member
  rw [Lit.negate_negate] at same
  obtain rfl := stacked.eq_of_var_eq listed follows.mem (congrArg Lit.var same)
  exact Nat.ne_of_lt under follows.level_eq

/-- The level returned to is lower than that of the conflict. -/
theorem lower (follows : analysis.Follows conflict db t start uip below work rest)
    (stacked : Stacked t.stack) (above : 0 < height t.stack) :
    analysis.backtrackLevel < height t.stack := by
  cases rest with
  | nil => exact follows.bottom rfl ▸ above
  | cons second others =>
    obtain ⟨b, -, -, -, under, level⟩ := follows.failed_below stacked (List.mem_cons_self ..)
    have latest := follows.latest second rfl
    rw [level] at latest
    exact latest ▸ under

/-- What satisfies the database satisfies the clause learned. -/
private theorem satisfies (follows : analysis.Follows conflict db t start uip below work rest)
    (coherent : t.Coherent) (grounded : Grounded db t.stack) (inBounds : conflict < db.size)
    (fails : ∀ l ∈ db.litsOf conflict, l.FailsOn t.stack) {assignment : Nat → Bool}
    (satisfied : db.SatisfiedBy assignment) : Satisfies assignment analysis.learned := by
  have falsified : start.Entailed db t.stack := WorkingClause.entailed_of_falsified coherent grounded
    inBounds fails fun l member raised => (follows.marks_iff l.var).mpr ⟨raised, l, member, rfl⟩
  have entailed : work.Entailed db t.stack := follows.walk.keeps (List.suffix_refl _)
    (fun within _ _ step entailed => step.entailed entailed coherent grounded within) falsified
  obtain ⟨c, listed, marked, falsified⟩ := entailed assignment satisfied
  have holds : c.lit.negate.isTrue assignment = true := by
    rw [Lit.isTrue_negate, falsified]
    rfl
  have bound := coherent.stacked.level_le_height listed
  have levels := follows.point.reflects.level_eq
  rw [follows.learned_eq]
  by_cases current : c.level = work.level
  · obtain rfl :=
      follows.point.eq_of_counts listed (WorkingClause.counts_iff.mpr ⟨current, marked⟩)
    exact ⟨_, List.mem_cons_self .., holds⟩
  · have member : c.lit.negate ∈ work.lower := by
      refine (follows.point.reflects.mem_lower_iff _).mpr
        ⟨c, listed, (c.lit.negate_negate).symm, ?_, marked⟩
      omega
    exact ⟨_, List.mem_cons_of_mem _ (follows.perm.mem_iff.mpr member), holds⟩

/-- After the return to the highest level of the others, the literal at the implication point is
asserted. -/
private theorem asserting (follows : analysis.Follows conflict db t start uip below work rest)
    (stacked : Stacked t.stack) (above : 0 < height t.stack) :
    Asserting (cut analysis.backtrackLevel t.stack) uip.lit.negate rest := by
  have lower := follows.lower stacked above
  have top := follows.mem
  have current := follows.level_eq
  refine ⟨follows.nodup stacked, ?_, ?_, ?_, ?_⟩
  · refine openOn_iff.mpr fun b member same => ?_
    obtain ⟨listed, within⟩ := stacked.mem_cut_iff.mp member
    obtain rfl := stacked.eq_of_var_eq listed top same
    omega
  · intro l member
    obtain ⟨b, listed, same, -, -, value⟩ := follows.failed_below stacked member
    have within := follows.greatest l member
    rw [value] at within
    exact ⟨b, stacked.mem_cut_iff.mpr ⟨listed, within⟩, same⟩
  · intro empty
    rw [follows.bottom empty, stacked.height_cut (Nat.zero_le _)]
  · rintro second others rfl k below
    rw [stacked.height_cut (Nat.le_of_lt lower)] at below
    rw [cut_cut (Nat.le_of_lt below)]
    refine openOn_iff.mpr fun c member same => ?_
    obtain ⟨b, listed, same', -, -, value⟩ :=
      follows.failed_below stacked (List.mem_cons_self ..)
    obtain ⟨listed', within⟩ := stacked.mem_cut_iff.mp member
    have sameVar := Assignment.var_eq_of_lit_eq_negate same'
    obtain rfl := stacked.eq_of_var_eq listed' listed (same.trans sameVar.symm)
    have latest := follows.latest second rfl
    rw [value, Option.getD_some] at latest
    omega

/-- What is learned is justified. -/
theorem justified (follows : analysis.Follows conflict db t start uip below work rest)
    (coherent : t.Coherent) (grounded : Grounded db t.stack) (above : 0 < height t.stack)
    (inBounds : conflict < db.size) (fails : ∀ l ∈ db.litsOf conflict, l.FailsOn t.stack) :
    analysis.Justified db t.stack t.varCount := by
  have stacked := coherent.stacked
  refine ⟨follows.lower stacked above, ⟨uip.lit.negate, rest, follows.learned_eq,
    follows.asserting stacked above⟩, ?_, ?_⟩
  · intro l member
    obtain ⟨b, listed, same⟩ := follows.fails stacked l member
    exact Assignment.var_eq_of_lit_eq_negate same ▸ coherent.var_lt listed
  · exact fun _ => follows.satisfies coherent grounded inBounds fails

end Analysis.Follows

/-- A clause that was settled below the current level and is falsified now has a literal of the current
level. -/
private theorem exists_current_of_falsified {lits : List Lit} {stack : List Assignment}
    (stacked : Stacked stack) (above : 0 < height stack)
    (settled : Settled (cut (height stack - 1) stack) lits) (fails : ∀ l ∈ lits, l.FailsOn stack) :
    ∃ l ∈ lits, ∃ b ∈ stack, b.lit = l.negate ∧ b.level = height stack := by
  by_contra lower
  refine settled.not_conflicting (stacked.cut _) fun l member => ?_
  obtain ⟨b, listed, same⟩ := fails l member
  refine ⟨b, stacked.mem_cut_iff.mpr ⟨listed, ?_⟩, same⟩
  have bound := stacked.level_le_height listed
  have differs : b.level ≠ height stack := fun top => lower ⟨l, member, b, listed, same, top⟩
  omega

/-- A conflict with a literal of the current level is analysed by a walk down the trail, from the
falsified clause to an implication point. -/
theorem analyze_follows (coherent : t.Coherent) (grounded : Grounded db t.stack)
    (above : 0 < height t.stack) (fails : ∀ l ∈ db.litsOf conflict, l.FailsOn t.stack)
    (current : ∃ l ∈ db.litsOf conflict, ∃ b ∈ t.stack, b.lit = l.negate ∧ b.level = height t.stack) :
    Yields (analyze conflict db t) fun (outcome, _) => ∃ analysis start uip below work rest,
      outcome = .ok analysis ∧ analysis.Follows conflict db t start uip below work rest := by
  have stacked := coherent.stacked
  obtain ⟨l, member, b, listed, negated, top⟩ := current
  apply (Database.clause_yields (Database.lt_size_of_mem member)).bind
  intro clause same
  rw [same, coherent.level_eq]
  have failed : ∀ l ∈ db.litsOf conflict, ∃ b ∈ t.stack, b.lit = l.negate ∧
      (b.level = height t.stack → b ∈ t.stack) := by
    intro l member
    obtain ⟨b, listed, negated⟩ := fails l member
    exact ⟨b, listed, negated, fun _ => listed⟩
  apply ((WorkingClause.reflects_empty t.stack).addAll_yields coherent (List.suffix_refl _) _
    failed).bind
  rintro start ⟨reflects, marks⟩
  have marks : ∀ var, start.Marks var ↔
      RaisedOn t.stack var ∧ ∃ l ∈ db.litsOf conflict, l.var = var := by
    intro var
    exact (marks var).trans (or_iff_right (WorkingClause.not_marks_empty _ _ _))
  have positive : 0 < start.atLevel := by
    have sameVar := Assignment.var_eq_of_lit_eq_negate negated
    have raised : RaisedOn t.stack b.var := ⟨b, listed, rfl, top ▸ above⟩
    have marked := (marks b.var).mpr ⟨raised, l, member, sameVar.symm⟩
    rw [reflects.atLevel_eq]
    refine List.countP_pos_iff.mpr ⟨b, listed, WorkingClause.counts_iff.mpr ⟨?_, marked⟩⟩
    rw [top, reflects.level_eq]
  rw [if_neg (Nat.ne_of_gt positive)]
  apply (WorkingClause.resolveDown_yields coherent grounded (List.suffix_refl t.stack) reflects
    positive).bind
  rintro ⟨outcome, steps⟩ ⟨uip, below, work, rfl, walk, point⟩
  have inRange : ∀ l ∈ work.lower, l.var < t.varCount := by
    intro l member
    obtain ⟨b, listed, negated, -⟩ := point.failed_below stacked member
    exact Assignment.var_eq_of_lit_eq_negate negated ▸ coherent.var_lt listed
  apply (coherent.backtrackTarget_yields (uip.lit.negate :: work.lower) inRange).bind
  rintro ⟨level, learned⟩ promoted
  obtain ⟨rest, rfl, perm, bottom, greatest, latest⟩ := promoted.exists_rest
  exact yields_pure_iff.mpr
    ⟨_, start, uip, below, work, rest, rfl, marks, walk, point, rfl, perm, bottom, greatest, latest⟩

/-- Analysis of a conflict above level zero yields a justified clause, all of whose literals fail, if the
levels below were closed. -/
theorem analyze_yields (coherent : t.Coherent) (grounded : Grounded db t.stack)
    (above : 0 < height t.stack) (settled : db.SettledOn (cut (height t.stack - 1) t.stack))
    (inBounds : conflict < db.size) (fails : ∀ l ∈ db.litsOf conflict, l.FailsOn t.stack) :
    Yields (analyze conflict db t) fun (outcome, _) =>
      ∃ analysis, outcome = .ok analysis ∧ analysis.Justified db t.stack t.varCount ∧
        ∀ l ∈ analysis.learned, l.FailsOn t.stack := by
  have current := exists_current_of_falsified coherent.stacked above (settled conflict inBounds) fails
  apply (analyze_follows coherent grounded above fails current).imp
  rintro ⟨outcome, steps⟩ ⟨analysis, start, uip, below, work, rest, same, follows⟩
  exact ⟨analysis, same, follows.justified coherent grounded above inBounds fails,
    follows.fails coherent.stacked⟩

end Analysis

end ClauseLearning
