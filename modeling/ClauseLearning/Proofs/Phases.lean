import ClauseLearning.Proofs.Branching.Signs
import ClauseLearning.Proofs.Correctness
import ClauseLearning.Proofs.Search.Resting

/-! # Decisions follow the history

A decision takes up what the run has shown before: if phases are saved, a variable that had a value gets
the literal that it was last given, by a decision or by propagation. All other decisions take the sign that
is configured.

The preferred signs know of an assignment only once it has been taken back. So the invariant, `Mindful`,
speaks of the record and of the trail together: what is on the trail is what the record tells last of its
variable, and for all other variables the preferred sign is the one that goes with the record.
-/

namespace ClauseLearning

/-- The literal that the event says became true. -/
def Event.made? : Event → Option Lit
  | .decision l _ | .propagation l _ _ => some l
  | _ => none

/-- The literal that the events last gave the variable. -/
def lastLit? (log : List Event) (var : Nat) : Option Lit :=
  (log.filterMap Event.made?).reverse.find? (·.var == var)

/-- Whether decisions on the variable are positive as long as no phase is saved: as configured, or if it
occurs positively in at least as many of the clauses loaded as negatively. -/
def Formula.StartsPositive (f : Formula) (var : Nat) : Polarity → Prop
  | .positive => True
  | .negative => False
  | .occurrence => f.occurrences ⟨var, true⟩ ≤ f.occurrences ⟨var, false⟩

theorem Formula.prefers_iff (f : Formula) {var : Nat} {polarity : Polarity} :
    polarity.prefers (f.occurrences ⟨var, false⟩) (f.occurrences ⟨var, true⟩) = true ↔
      f.StartsPositive var polarity := by
  cases polarity <;> simp [Polarity.prefers, StartsPositive]

/-- The literal is the one that a decision on its variable takes after the events: the last one of the
variable, if phases are saved and there is one, and otherwise the one with the sign configured. -/
structure ByHistory (f : Formula) (config : BranchingConfig) (earlier : List Event) (l : Lit) :
    Prop where
  recalled : config.savePhases = true → ∀ last, lastLit? earlier l.var = some last → l = last
  initial : (config.savePhases = true → lastLit? earlier l.var = none) →
    (l.negative = false ↔ f.StartsPositive l.var config.initialPolarity)

/-- Every decision among the events takes the literal that goes with the events before it. -/
def DecidesByHistory (f : Formula) (config : BranchingConfig) (log : List Event) : Prop :=
  ∀ earlier l level later, log = earlier ++ .decision l level :: later → ByHistory f config earlier l

section History
variable {f : Formula} {config : BranchingConfig} {log events : List Event} {e : Event} {l : Lit}
  {var : Nat}

theorem lastLit?_concat_of_made (made : e.made? = some l) :
    lastLit? (log ++ [e]) var = if l.var = var then some l else lastLit? log var := by
  simp only [lastLit?, List.filterMap_append, List.filterMap_cons, made, List.filterMap_nil,
    List.reverse_append, List.reverse_singleton, List.singleton_append, List.find?_cons]
  split <;> simp_all

theorem lastLit?_append_of_silent (silent : ∀ e ∈ events, e.made? = none) :
    lastLit? (log ++ events) var = lastLit? log var := by
  have none : events.filterMap Event.made? = [] := List.filterMap_eq_nil_iff.mpr silent
  rw [lastLit?, List.filterMap_append, none, List.append_nil, lastLit?]

/-- Events that give the variable no other literal make no difference. -/
theorem ByHistory.congr {log' : List Event} (byHistory : ByHistory f config log l)
    (same : config.savePhases = true → lastLit? log' l.var = lastLit? log l.var) :
    ByHistory f config log' l :=
  ⟨fun saves last found => byHistory.recalled saves last (same saves ▸ found),
    fun fresh => byHistory.initial fun saves => same saves ▸ fresh saves⟩

theorem decidesByHistory_nil : DecidesByHistory f config [] := by
  intro earlier l level later split
  simp at split

/-- One more event has to go with the events before it if it is a decision. -/
theorem DecidesByHistory.concat (decides : DecidesByHistory f config log)
    (next : ∀ l level, e = .decision l level → ByHistory f config log l) :
    DecidesByHistory f config (log ++ [e]) := by
  intro earlier l level later split
  rcases List.eq_nil_or_concat later with rfl | ⟨later, last, rfl⟩
  · obtain ⟨rfl, same⟩ := List.append_inj' split rfl
    exact next l level (List.singleton_inj.mp same)
  · rw [List.concat_eq_append, ← List.cons_append, ← List.append_assoc] at split
    exact decides earlier l level later (List.append_inj' split rfl).1

/-- Events that make no literal true are no decisions. -/
theorem DecidesByHistory.append_of_silent (decides : DecidesByHistory f config log)
    (silent : ∀ e ∈ events, e.made? = none) : DecidesByHistory f config (log ++ events) := by
  induction events generalizing log with
  | nil => rwa [List.append_nil]
  | cons e rest ih =>
    obtain ⟨first, others⟩ := List.forall_mem_cons.mp silent
    rw [List.append_cons]
    refine ih (decides.concat fun l level same => ?_) others
    subst same
    cases first

end History

/-- The record and the preferred signs agree with each other on all variables that are not assigned, and the
record and the trail on those that are. -/
structure Mindful (f : Formula) (config : BranchingConfig) (log : List Event) (stack : List Assignment)
    (b : Branching) : Prop where
  config_eq : b.config = config
  latest : ∀ a ∈ stack, lastLit? log a.var = some a.lit
  signs : ∀ l : Lit, l.var < f.varCount → (config.savePhases = true → ∀ a ∈ stack, a.var ≠ l.var) →
    b.polarity[l.var]? = some !l.negative → ByHistory f config log l
  decides : DecidesByHistory f config log

namespace Mindful
variable {f : Formula} {config : BranchingConfig} {log events : List Event} {stack : List Assignment}
  {b b' : Branching} {e : Event} {a : Assignment} {t t' : Trail}

/-- An assignment that is made and told of is the last one of its variable. -/
theorem made (mindful : Mindful f config log t.stack b) (made : Trail.Coherent.Made t a t')
    (told : e.made? = some a.lit) (next : ∀ l level, e = .decision l level → ByHistory f config log l) :
    Mindful f config (log ++ [e]) t'.stack b := by
  have fresh := (made.stack_eq ▸ made.coherent.stacked).fresh
  have others {var : Nat} (differs : a.var ≠ var) : lastLit? (log ++ [e]) var = lastLit? log var := by
    rw [lastLit?_concat_of_made told]
    exact if_neg differs
  rw [made.stack_eq]
  refine ⟨mindful.config_eq, List.forall_mem_cons.mpr ⟨?_, fun below member => ?_⟩,
    fun l inRange unassigned preferred => ?_, mindful.decides.concat next⟩
  · rw [lastLit?_concat_of_made told]
    exact if_pos rfl
  · rw [others (fresh below member).symm]
    exact mindful.latest below member
  · refine (mindful.signs l inRange (fun saves => ?_) preferred).congr fun saves => ?_
    · exact (List.forall_mem_cons.mp (unassigned saves)).2
    · exact others (unassigned saves a List.mem_cons_self)

/-- Events that make no literal true leave everything as it is. -/
theorem told (mindful : Mindful f config log stack b) (silent : ∀ e ∈ events, e.made? = none) :
    Mindful f config (log ++ events) stack b where
  config_eq := mindful.config_eq
  latest a member := (lastLit?_append_of_silent silent).trans (mindful.latest a member)
  signs l inRange unassigned preferred :=
    (mindful.signs l inRange unassigned preferred).congr fun _ => lastLit?_append_of_silent silent
  decides := mindful.decides.append_of_silent silent

theorem keepsSigns (mindful : Mindful f config log stack b) (keeps : b.KeepsSigns b') :
    Mindful f config log stack b' where
  config_eq := keeps.config_eq.trans mindful.config_eq
  latest := mindful.latest
  signs l inRange unassigned preferred :=
    mindful.signs l inRange unassigned (keeps.polarity_eq ▸ preferred)
  decides := mindful.decides

/-- What is taken back hands on its signs, which are those told of last. -/
theorem released (mindful : Mindful f config log t.stack b) (coherent : t.Coherent)
    (sized : b.polarity.size = f.varCount) (k : Nat) (saves : b.SavesSigns (t.above k) b') :
    Mindful f config log (cut k t.stack) b' := by
  obtain ⟨rfl, latest, signs, decides⟩ := mindful
  refine ⟨saves.config_eq, fun a member => latest a ((cut_suffix k t.stack).subset member),
    fun l inRange unassigned preferred => ?_, decides⟩
  cases saved : b.config.savePhases with
  | false =>
    rw [saves.getElem?_of_not_saved saved] at preferred
    exact signs l inRange (fun saves => by simp [saved] at saves) preferred
  | true =>
    by_cases removed : ∃ a ∈ t.above k, a.var = l.var
    · obtain ⟨a, member, same⟩ := removed
      have onStack := (coherent.mem_above_iff.mp member).1
      have single : ∀ other ∈ t.above k, other.var = a.var → other = a := fun other listed equal =>
        coherent.stacked.eq_of_var_eq (coherent.mem_above_iff.mp listed).1 onStack equal
      have inBounds : a.var < b.polarity.size := by rwa [sized, same]
      have sign := saves.getElem?_of_mem saved member single inBounds
      have last := latest a onStack
      rw [same] at sign last
      have signEq : a.value = !l.negative := Option.some.inj (sign.symm.trans preferred)
      have litEq : a.lit = l := by
        rcases Lit.eq_or_eq_negate same with equal | opposite
        · exact equal
        · rw [Assignment.value, opposite] at signEq
          simp at signEq
      refine ⟨fun _ other found => ?_, fun fresh => ?_⟩
      · exact litEq.symm.trans (Option.some.inj (last.symm.trans found))
      · cases (fresh saved).symm.trans last
    · have absent : ∀ a ∈ t.above k, a.var ≠ l.var := fun a member same => removed ⟨a, member, same⟩
      rw [saves.getElem?_of_absent absent] at preferred
      refine signs l inRange (fun _ a member same => ?_) preferred
      -- What is not taken back is left, where the variable is not assigned.
      refine unassigned saved a (coherent.stacked.mem_cut_iff.mpr ⟨member, ?_⟩) same
      by_contra above
      exact absent a (coherent.mem_above_iff.mpr ⟨member, Nat.lt_of_not_le above⟩) same

end Mindful

/-- What propagation implies, it tells of. -/
theorem Workspace.LeadsTo.mindful {f : Formula} {config : BranchingConfig} {b : Branching}
    {work work' : Workspace Recorder} (leads : work.LeadsTo work') (coherent : work.trail.Coherent)
    (mindful : Mindful f config work.log work.trail.stack b) :
    Mindful f config work'.log work'.trail.stack b := by
  induction leads with
  | refl => exact mindful
  | reorder _ _ _ ih => exact ih
  | moveCursor _ _ ih => exact ih
  | imply before _ _ implied ih =>
    have logged := logged_of_imply implied
    obtain ⟨t', pushed, rfl⟩ := exists_of_imply implied
    have made := (before.coherent coherent).made_of_imply pushed
    rw [logged.log_eq]
    exact ih.made made rfl nofun

namespace Solver
variable {f : Formula} {config : Config} {start : Database} {phase phase' : Phase}
  {s s' t : Solver Recorder} {outcome : Except EngineError Verdict}

/-- The record, the trail and the preferred signs of a solver go together. -/
def Recalls (f : Formula) (config : Config) (s : Solver Recorder) : Prop :=
  Mindful f config.decisions s.log s.work.trail.stack s.branching

theorem Recalls.of_log {log : List Event} (logEq : s.log = log)
    (mindful : Mindful f config.decisions log s.work.trail.stack s.branching) : s.Recalls f config := by
  rwa [Recalls, logEq]

/-- Going back for a learned clause hands on the signs of what is taken back. -/
private theorem Recalls.learn {analysis : Analysis} (recalls : s.Recalls f config)
    (coherent : s.work.trail.Coherent) (fit : s.branching.Fit f.varCount)
    (learned : s.learn analysis = .ok (.ok s')) : s'.Recalls f config := by
  have log := (logged_of_learn learned).log_eq
  obtain ⟨bumped, returned, raised, went, kept⟩ := exists_of_learn learned
  have first : bumped.work.trail = s.work.trail ∧ s.branching.KeepsSigns bumped.branching := by
    obtain ⟨⟨decayed, branching⟩, noted, same⟩ := Checked.bind_eq_ok_iff.mp raised
    have keeps := Branching.keepsSigns_of_learn noted
    cases decayed <;> cases same <;> exact ⟨rfl, keeps⟩
  obtain ⟨trailEq, keeps⟩ := first
  obtain ⟨branching, released, same⟩ := Checked.bind_eq_ok_iff.mp went
  cases same
  obtain ⟨p, -, same⟩ := Checked.bind_eq_ok_iff.mp kept
  cases same
  have saves := Branching.savesSigns_of_releaseAll released
  refine .of_log log (Mindful.told ?_ (by simp [Event.made?]))
  simp only [trailEq] at saves ⊢
  rw [(coherent.backTo analysis.backtrackLevel).stack_eq]
  have sized : bumped.branching.polarity.size = f.varCount := keeps.polarity_eq ▸ fit.polarity_size
  exact (recalls.keepsSigns keeps).released coherent sized analysis.backtrackLevel saves

/-- Every step keeps them together. -/
theorem Recalls.step (recalls : s.Recalls f config)
    (consistent : Consistent f.varCount config start phase s)
    (stepped : Solver.step phase s = .ok (phase', s')) : s'.Recalls f config := by
  have coherent := consistent.intact.coherent
  cases phase with
  | deciding =>
    obtain ⟨⟨choice, branching⟩, picked, onward⟩ := Checked.bind_eq_ok_iff.mp stepped
    have keeps := Branching.keepsSigns_of_pick picked
    cases choice with
    | none =>
      cases onward
      exact recalls.keepsSigns keeps
    | some l =>
      obtain ⟨decided, decision, same⟩ := Checked.bind_eq_ok_iff.mp onward
      cases same
      have log := (logged_of_makeDecision decision).log_eq
      obtain ⟨t', chosen, same⟩ := Checked.bind_eq_ok_iff.mp decision
      cases same
      have made := coherent.made_of_choose chosen
      obtain ⟨-, -, -, -, -, -, preferred⟩ := Branching.exists_of_pick picked
      have inRange : l.var < f.varCount := by
        rw [← consistent.intact.varCount_eq, ← made.varCount_eq]
        exact made.coherent.var_lt (made.stack_eq ▸ List.mem_cons_self)
      have fresh := (made.stack_eq ▸ made.coherent.stacked).fresh
      have byHistory := recalls.signs l inRange (fun _ => fresh) (preferred l rfl)
      refine .of_log log (Mindful.keepsSigns (recalls.made made rfl ?_) keeps)
      rintro _ _ ⟨⟩
      exact byHistory
  | propagating =>
    obtain ⟨⟨conflict, p', work'⟩, propagated, same⟩ := Checked.bind_eq_ok_iff.mp stepped
    cases same
    have safe := (consistent.valid rfl).2.safe consistent.intact.sound
    exact (Propagator.leadsTo_of_propagate safe propagated).mindful coherent recalls
  | analyzing conflict =>
    obtain ⟨noted, counted, outcome⟩ := exists_of_step_analyzing stepped
    have log := (logged_of_noteConflict counted).log_eq
    obtain rfl := eq_of_noteConflict counted
    have recalled : Solver.Recalls f config _ := .of_log log (recalls.told (by simp [Event.made?]))
    rcases outcome with ⟨-, -, rfl⟩ | ⟨-, outcome, steps, -, rfl, -⟩
    · exact recalled
    · rwa [reportResolutions_eq]
  | backtracking analysis =>
    obtain ⟨outcome, went, same⟩ := Checked.bind_eq_ok_iff.mp stepped
    cases outcome with
    | error e =>
      cases same
      exact recalls
    | ok learned =>
      cases same
      exact recalls.learn coherent consistent.fit went
  | finished outcome =>
    cases stepped
    exact recalls

/-- The end is told of without any literal becoming true. -/
theorem Recalls.conclude (recalls : s.Recalls f config) (verdict : Verdict) :
    (s.conclude verdict).Recalls f config :=
  .of_log (s.logged_conclude verdict).log_eq (recalls.told (by simp [Event.made?]))

/-- So does a whole search. -/
theorem Recalls.follows (recalls : s.Recalls f config)
    (consistent : Consistent f.varCount config start phase s) (follows : Follows phase s phase' s') :
    Consistent f.varCount config start phase' s' ∧ s'.Recalls f config := by
  induction follows with
  | refl => exact ⟨consistent, recalls⟩
  | tail _ stepped ih => exact ⟨(ih.1.step stepped).1, ih.2.step ih.1 stepped⟩

/-- At the start the preferred signs are those configured, counted over what is loaded. -/
theorem Recalls.of_new (built : f.Built) (made : new config f ({} : Recorder) = .ok s) :
    s.Recalls f config := by
  have log := (untouched_of_new made).1
  obtain ⟨loading, source⟩ := exists_of_new built made
  refine .of_log log ⟨source.started.config_eq, ?_, fun l inRange _ preferred => ⟨nofun, fun _ => ?_⟩,
    decidesByHistory_nil⟩
  · rw [source.trail_eq, Trail.stack_empty]
    nofun
  · have sign := (source.started.polarity_eq l.var inRange).symm.trans preferred
    rw [source.sifted.count_eq, source.sifted.count_eq, Option.some.injEq] at sign
    rw [← f.prefers_iff, sign]
    simp

/-- A call for a verdict keeps them together. -/
theorem Recalls.solve (recalls : s.Recalls f config) (resting : Resting f config start s)
    (answered : s.solve = .ok (outcome, t)) : t.Recalls f config := by
  cases status : s.status with
  | some verdict =>
    rw [solve_eq_of_status status] at answered
    cases answered
    exact recalls
  | none =>
    have searched {outcome : Except EngineError Verdict} {u : Solver Recorder}
        (searched : s.search = .ok (outcome, u)) : u.Recalls f config :=
      (recalls.follows (resting.consistent status) (.of_search searched)).2
    cases answers_of_solve status answered with
    | emptied => exact recalls.conclude .unsat
    | failed _ ended | doubted _ ended => exact searched ended
    | concluded _ ended => exact (searched ended).conclude _

/-- The interval of decays, which may be put right, has nothing to do with signs. -/
theorem Recalls.decidesByHistory (recalls : s.Recalls f config) :
    DecidesByHistory f config.branching s.log := by
  intro earlier l level later split
  obtain ⟨recalled, initial⟩ := recalls.decides earlier l level later split
  exact ⟨recalled, initial⟩

/-- Decisions take the literals that the run so far calls for, however often the solver is asked for a
verdict, and also while it is searching for one. -/
theorem decides_by_history (built : f.Built) (made : new config f ({} : Recorder) = .ok s) :
    (∀ times t, s.Asked times t → DecidesByHistory f config.branching t.log) ∧
      ∀ phase t, Follows .propagating s phase t → DecidesByHistory f config.branching t.log := by
  have begun := Recalls.of_new built made
  refine ⟨fun times t asked => ?_, fun phase t follows => ?_⟩
  · suffices recalls : t.Recalls f config from recalls.decidesByHistory
    induction asked with
    | never => exact begun
    | again asked answered ih => exact ih.solve (.of_asked built made asked) answered
  · exact (begun.follows (Loaded.of_new built made).consistent follows).2.decidesByHistory

/-- Clauses that force two variables to be true as long as the third one is not. -/
def comeback : Formula :=
  ⟨3, #[[⟨2, false⟩, ⟨0, false⟩], [⟨2, false⟩, ⟨1, false⟩], [⟨2, false⟩, ⟨0, true⟩, ⟨1, true⟩]]⟩

theorem comeback_built : comeback.Built :=
  .given (show Formula.ofClauses [[3, 1], [3, 2], [3, -1, -2]] = .ok (.ok comeback) by decide +kernel)

/-- All decisions were to be negative, but two variables come back with the values that were once forced. -/
theorem decides_by_history_comeback : comeback.Built ∧ ∃ s t : Solver Recorder,
    new { branching := { initialPolarity := .negative, savePhases := true } } comeback {} = .ok s ∧
      s.Asked 1 t ∧ DecidesByHistory comeback { initialPolarity := .negative, savePhases := true } t.log ∧
      t.log.filter (·.made?.isSome) = [.decision ⟨2, true⟩ 1,
        .propagation ⟨0, false⟩ 1 [⟨0, false⟩, ⟨2, false⟩],
        .propagation ⟨1, false⟩ 1 [⟨1, false⟩, ⟨2, false⟩],
        .propagation ⟨2, false⟩ 0 [⟨2, false⟩], .decision ⟨0, false⟩ 1, .decision ⟨1, false⟩ 2] := by
  have run : (new { branching := { initialPolarity := .negative, savePhases := true } } comeback
      ({} : Recorder) >>= solve).map (fun answer => answer.2.log.filter (·.made?.isSome)) =
        .ok [.decision ⟨2, true⟩ 1, .propagation ⟨0, false⟩ 1 [⟨0, false⟩, ⟨2, false⟩],
          .propagation ⟨1, false⟩ 1 [⟨1, false⟩, ⟨2, false⟩], .propagation ⟨2, false⟩ 0 [⟨2, false⟩],
          .decision ⟨0, false⟩ 1, .decision ⟨1, false⟩ 2] := by
    decide +kernel
  obtain ⟨s, ⟨outcome, t⟩, made, answered, seen⟩ := exists_of_bind_map_eq run
  have asked : s.Asked 1 t := .again .never answered
  exact ⟨comeback_built, s, t, made, asked, (decides_by_history comeback_built made).1 1 t asked, seen⟩

end Solver

end ClauseLearning
