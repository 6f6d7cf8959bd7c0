import ClauseLearning.Proofs.Conflict.Analysis
import ClauseLearning.Proofs.Conflict.Paths

/-! # What the walk knows of the paths to the conflict

The walk down the trail never sees the graph. Still, at each of its moments a literal that failed through
an entry not passed yet is in the clause under construction if and only if the conflicting clause or the
clause of a passed entry with a path to the conflict contains it. So each path from below runs through a
literal of the clause, which makes the single literal left at the end a dominator. An entry is resolved on
only while another literal of its level is left, from which a path leads around the entry, so no later
entry is a dominator.
-/

namespace ClauseLearning

variable {conflict : Nat} {db : Database} {t : Trail} {stack remaining below : List Assignment}
  {a b v : Assignment} {work work' : WorkingClause}

/-- Some path to the conflict starts at the entry. -/
def Reaches (conflict : Nat) (db : Database) (stack : List Assignment) (a : Assignment) : Prop :=
  ∃ rest, Path conflict db stack (a :: rest)

/-- The conflicting clause, or the clause that implied a passed entry with a path to the conflict, has a
literal that fails through the entry. -/
def Exposed (conflict : Nat) (db : Database) (stack remaining : List Assignment) (a : Assignment) : Prop :=
  a.lit.negate ∈ db.litsOf conflict ∨
    ∃ b ∈ stack, b ∉ remaining ∧ Reaches conflict db stack b ∧ Feeds db a b

/-- From an earlier entry a path to the conflict leads around the entry. -/
def Bypassed (conflict : Nat) (db : Database) (stack : List Assignment) (a : Assignment) : Prop :=
  ∃ below b rest, a :: below <:+ stack ∧ b ∈ below ∧ Path conflict db stack (b :: rest) ∧ a ∉ rest

section Exposed

/-- An exposed entry of the current level has a path to the conflict through passed entries. -/
theorem Exposed.exists_path (exposed : Exposed conflict db stack remaining a) (stacked : Stacked stack)
    (grounded : Grounded db stack) (within : remaining <:+ stack) (member : a ∈ stack)
    (level : a.level = height stack) :
    ∃ rest, Path conflict db stack (a :: rest) ∧ ∀ b ∈ rest, b ∉ remaining := by
  rcases exposed with listed | ⟨b, -, passed, ⟨rest, path⟩, feeds⟩
  · exact ⟨[], .last member level listed, by simp⟩
  · exact ⟨b :: rest, .cons member level feeds path,
      path.not_mem_suffix stacked grounded within passed⟩

/-- The next entry has a path to the conflict if and only if it is exposed. -/
theorem reaches_iff_exposed (stacked : Stacked stack) (grounded : Grounded db stack)
    (within : a :: below <:+ stack) (level : a.level = height stack) :
    Reaches conflict db stack a ↔ Exposed conflict db stack (a :: below) a := by
  have member := within.subset (List.mem_cons_self ..)
  constructor
  · rintro ⟨rest, path⟩
    cases path with
    | last _ _ listed => exact .inl listed
    | cons _ _ feeds tail =>
      exact .inr ⟨_, tail.head.1, feeds.not_mem stacked grounded within, ⟨_, tail⟩, feeds⟩
  · intro exposed
    obtain ⟨rest, path, -⟩ := exposed.exists_path stacked grounded within member level
    exact ⟨rest, path⟩

/-- Once an entry with a path to the conflict is passed, what feeds it is exposed too. -/
theorem exposed_below_iff (stacked : Stacked stack) (within : a :: below <:+ stack) :
    Exposed conflict db stack below b ↔
      Exposed conflict db stack (a :: below) b ∨ (Reaches conflict db stack a ∧ Feeds db b a) := by
  have passed : ∀ c, c ∉ below ↔ c ∉ a :: below ∨ c = a := by
    intro c
    rw [List.mem_cons, not_or]
    by_cases same : c = a
    · subst same
      simpa using fun under => (stacked.suffix within).fresh c under rfl
    · simp [same]
  have member := within.subset (List.mem_cons_self ..)
  simp only [Exposed, passed, or_assoc]
  refine or_congr_right ⟨?_, ?_⟩
  · rintro ⟨c, listed, outside | rfl, reaches, feeds⟩
    · exact .inl ⟨c, listed, outside, reaches, feeds⟩
    · exact .inr ⟨reaches, feeds⟩
  · rintro (⟨c, listed, outside, reaches, feeds⟩ | ⟨reaches, feeds⟩)
    · exact ⟨c, listed, .inl outside, reaches, feeds⟩
    · exact ⟨a, member, .inr rfl, reaches, feeds⟩

end Exposed

/-- At a moment of the walk the marks are on what is exposed, and each passed entry is bypassed if it has a
path to the conflict. -/
structure Surveyed (conflict : Nat) (db : Database) (t : Trail) (remaining : List Assignment)
    (work : WorkingClause) : Prop where
  marks_iff : ∀ a ∈ remaining, 0 < a.level →
    (work.Marks a.var ↔ Exposed conflict db t.stack remaining a)
  bypassed : ∀ a ∈ t.stack, a ∉ remaining → Reaches conflict db t.stack a →
    Bypassed conflict db t.stack a

section Walk

/-- The walk starts with the literals of the falsified clause. -/
theorem surveyed_stack (stacked : Stacked t.stack)
    (fails : ∀ l ∈ db.litsOf conflict, l.FailsOn t.stack)
    (marks : ∀ var, work.Marks var ↔
      RaisedOn t.stack var ∧ ∃ l ∈ db.litsOf conflict, l.var = var) :
    Surveyed conflict db t t.stack work := by
  refine ⟨fun a member raised => ?_, fun a member passed => (passed member).elim⟩
  rw [marks]
  constructor
  · rintro ⟨-, l, listed, same⟩
    obtain ⟨b, there, negated⟩ := fails l listed
    obtain rfl := stacked.eq_of_var_eq there member
      ((Assignment.var_eq_of_lit_eq_negate negated).trans same)
    rw [← l.negate_negate, ← negated] at listed
    exact .inl listed
  · rintro (listed | ⟨b, there, passed, -⟩)
    · exact ⟨⟨a, member, rfl, raised⟩, _, listed, rfl⟩
    · exact (passed there).elim

/-- Among the earlier entries a resolution step marks those that feed the one resolved on. -/
theorem feeds_iff_of_supported (stacked : Stacked (a :: below)) (supported : Supported db below a)
    {id : Nat} (reason : a.reason = .implied id) (member : b ∈ below) :
    Feeds db b a ↔ ∃ l ∈ db.litsOf id, l ≠ a.lit ∧ l.var = b.var := by
  constructor
  · rintro ⟨id', reason', listed, differs⟩
    rw [reason] at reason'
    cases reason'
    exact ⟨_, listed, differs, rfl⟩
  · rintro ⟨l, listed, differs, same⟩
    obtain ⟨c, under, negated⟩ := (supported id reason).2 l listed differs
    obtain rfl := stacked.tail.eq_of_var_eq under member
      ((Assignment.var_eq_of_lit_eq_negate negated).trans same)
    rw [← l.negate_negate, ← negated] at listed differs
    exact ⟨id, reason, listed, differs⟩

/-- While two literals of the current level are left, a path from the earlier one leads around the later. -/
theorem Surveyed.bypassed_of_several (surveyed : Surveyed conflict db t (a :: below) work)
    (stacked : Stacked t.stack) (grounded : Grounded db t.stack) (above : 0 < height t.stack)
    (within : a :: below <:+ t.stack) (reflects : work.Reflects t (a :: below))
    (counted : work.counts a = true) (several : 1 < work.atLevel) :
    Bypassed conflict db t.stack a := by
  rw [reflects.atLevel_eq, List.countP_cons_of_pos counted] at several
  have another : 0 < below.countP work.counts := by omega
  obtain ⟨b, under, counted'⟩ := List.countP_pos_iff.mp another
  obtain ⟨level, marked⟩ := WorkingClause.counts_iff.mp counted'
  have level := level.trans reflects.level_eq
  have kept := List.mem_cons_of_mem a under
  have exposed := (surveyed.marks_iff b kept (level ▸ above)).mp marked
  obtain ⟨rest, path, outside⟩ :=
    exposed.exists_path stacked grounded within (within.subset kept) level
  exact ⟨below, b, rest, within, under, path, fun listed => outside a listed (List.mem_cons_self ..)⟩

/-- Each step of the walk keeps the survey right. -/
theorem Surveyed.step (surveyed : Surveyed conflict db t (a :: below) work) (stacked : Stacked t.stack)
    (grounded : Grounded db t.stack) (above : 0 < height t.stack) (within : a :: below <:+ t.stack)
    (reflects : work.Reflects t (a :: below)) (level : a.level = height t.stack)
    (step : WorkingClause.Step db t a work work') : Surveyed conflict db t below work' := by
  have marked : work.Marks a.var ↔ Reaches conflict db t.stack a :=
    (surveyed.marks_iff a (List.mem_cons_self ..) (level ▸ above)).trans
      (reaches_iff_exposed stacked grounded within level).symm
  have outside : ∀ b ∈ t.stack, b ∉ below → b = a ∨ b ∉ a :: below := by
    intro b _ passed
    simpa [passed] using Classical.em (b = a)
  cases step with
  | passed unmarked =>
    have reachless : ¬ Reaches conflict db t.stack a := fun reaches => unmarked (marked.mpr reaches)
    refine ⟨fun b under raised => ?_, fun b member passed reaches => ?_⟩
    · rw [surveyed.marks_iff b (List.mem_cons_of_mem _ under) raised,
        exposed_below_iff stacked within, or_iff_left fun both => reachless both.1]
    · rcases outside b member passed with rfl | passed
      · exact (reachless reaches).elim
      · exact surveyed.bypassed b member passed reaches
  | resolved counted several reason marks =>
    have lower := stacked.suffix within
    have reaches := marked.mp (WorkingClause.counts_iff.mp counted).2
    refine ⟨fun b under raised => ?_, fun b member passed reaches => ?_⟩
    · have there := within.subset (List.mem_cons_of_mem _ under)
      have feeds := feeds_iff_of_supported lower (grounded.suffix within).1 reason under
      rw [marks, and_iff_left (lower.fresh b under), and_iff_right ⟨b, there, rfl, raised⟩,
        surveyed.marks_iff b (List.mem_cons_of_mem _ under) raised, exposed_below_iff stacked within,
        and_iff_right reaches, feeds]
    · rcases outside b member passed with rfl | passed
      · exact surveyed.bypassed_of_several stacked grounded above within reflects counted several
      · exact surveyed.bypassed b member passed reaches

end Walk

/-- The entry lies on every path from the decision of the current level to the conflict. -/
def Dominates (conflict : Nat) (db : Database) (stack : List Assignment) (a : Assignment) : Prop :=
  ∀ start rest, start.reason = .decision → Path conflict db stack (start :: rest) → a ∈ start :: rest

/-- The literal is in the conflicting clause, or in the clause that implied an entry which comes after the
given one on a path to the conflict. -/
def OccursBeyond (conflict : Nat) (db : Database) (stack : List Assignment) (a : Assignment) (l : Lit) :
    Prop :=
  l ∈ db.litsOf conflict ∨ ∃ rest b id, Path conflict db stack (a :: rest) ∧ b ∈ rest ∧
    b.reason = .implied id ∧ l ∈ db.litsOf id

section Point
variable {uip : Assignment} {rest : List Assignment} {l : Lit}

namespace Surveyed
variable (surveyed : Surveyed conflict db t (uip :: below) work)
  (point : work.ImplicationPoint t uip below) (above : 0 < height t.stack) (stacked : Stacked t.stack)
  (grounded : Grounded db t.stack) (connected : Connected db t.stack) (within : uip :: below <:+ t.stack)
include surveyed point above

/-- At the end of the walk nothing else of the current level is exposed. -/
theorem eq_of_exposed (member : a ∈ t.stack) (level : a.level = height t.stack) (kept : a ∈ uip :: below)
    (exposed : Exposed conflict db t.stack (uip :: below) a) : a = uip := by
  have marked := (surveyed.marks_iff a kept (level ▸ above)).mpr exposed
  exact point.eq_of_counts member
    (WorkingClause.counts_iff.mpr ⟨level.trans point.reflects.level_eq.symm, marked⟩)

/-- Each path from below runs through the implication point. -/
theorem mem_of_path (path : Path conflict db t.stack (a :: rest)) (kept : a ∈ uip :: below) :
    uip ∈ a :: rest := by
  obtain ⟨member, level⟩ := path.head
  have only := surveyed.eq_of_exposed point above member level kept
  induction rest generalizing a with
  | nil =>
    cases path with
    | last _ _ listed => exact only (.inl listed) ▸ List.mem_cons_self ..
  | cons next rest ih =>
    cases path with
    | cons _ _ feeds tail =>
      obtain ⟨member', level'⟩ := tail.head
      by_cases within : next ∈ uip :: below
      · exact List.mem_cons_of_mem _ (ih tail within member' level'
          (surveyed.eq_of_exposed point above member' level' within))
      · exact only (.inr ⟨next, member', within, ⟨rest, tail⟩, feeds⟩) ▸ List.mem_cons_self ..

include stacked within in
/-- The decision of the current level is not above the implication point, so this one dominates. -/
theorem dominates : Dominates conflict db t.stack uip := by
  intro start rest decision path
  refine surveyed.mem_of_path point above path ?_
  obtain ⟨member, level⟩ := path.head
  refine (mem_or_exists_suffix within member).resolve_right ?_
  rintro ⟨lower, suffix, after⟩
  have lower := (stacked.suffix suffix).lt_of_decision decision after
  have top := (WorkingClause.counts_iff.mp point.counted).1.trans point.reflects.level_eq
  omega

include stacked grounded within in
/-- The implication point has a path to the conflict. -/
theorem reaches : Reaches conflict db t.stack uip := by
  obtain ⟨top, marked⟩ := WorkingClause.counts_iff.mp point.counted
  have level := top.trans point.reflects.level_eq
  refine (reaches_iff_exposed stacked grounded within level).mpr ?_
  exact (surveyed.marks_iff uip (List.mem_cons_self ..) (level ▸ above)).mp marked

include stacked grounded connected within in
/-- A later entry does not dominate: a path leads around it if it has a path to the conflict, and no path
comes to it otherwise. -/
theorem mem_of_dominates (member : a ∈ t.stack) (dominates : Dominates conflict db t.stack a) :
    a ∈ uip :: below := by
  by_contra passed
  by_cases reaches : Reaches conflict db t.stack a
  · obtain ⟨lower, b, rest, suffix, under, path, around⟩ := surveyed.bypassed a member passed reaches
    obtain ⟨start, front, first, longer, -, origin⟩ := connected.exists_path_from_decision stacked
      grounded above ((List.suffix_cons a lower).trans suffix) under path
    rcases origin a (dominates start front first longer) with earlier | later
    · exact (stacked.suffix suffix).fresh a earlier rfl
    · exact around later
  · obtain ⟨rest, path⟩ := surveyed.reaches point above stacked grounded within
    obtain ⟨start, front, first, longer, -⟩ := connected.exists_path_from_decision stacked grounded
      above within (List.mem_cons_self ..) path
    obtain ⟨rest', -, path'⟩ := longer.of_mem (dominates start front first longer)
    exact reaches ⟨rest', path'⟩

include stacked grounded connected within in
/-- The passed entries with a path to the conflict are those on the paths from the implication point. -/
theorem passed_iff : (a ∉ uip :: below ∧ Reaches conflict db t.stack a) ↔
    ∃ rest, Path conflict db t.stack (uip :: rest) ∧ a ∈ rest := by
  constructor
  · rintro ⟨passed, rest, path⟩
    obtain ⟨member, -⟩ := path.head
    obtain ⟨start, front, first, longer, suffix, -⟩ := connected.exists_path_from_decision stacked
      grounded above List.suffix_rfl member path
    have through := surveyed.dominates point above stacked within start front first longer
    obtain ⟨onward, suffix', path'⟩ := longer.of_mem through
    refine ⟨onward, path', ?_⟩
    rcases mem_or_exists_suffix suffix' (suffix.subset (List.mem_cons_self ..)) with
      kept | ⟨after, suffix'', reversed⟩
    · refine (List.mem_cons.mp kept).resolve_left ?_
      rintro rfl
      exact passed (List.mem_cons_self ..)
    · have later := (longer.suffix suffix'').not_mem_suffix stacked grounded within passed uip
        (List.mem_cons_of_mem _ reversed)
      exact (later (List.mem_cons_self ..)).elim
  · rintro ⟨rest, path, after⟩
    obtain ⟨rest', -, path'⟩ := path.of_mem (List.mem_cons_of_mem _ after)
    exact ⟨path.not_mem_of_mem_tail stacked grounded within a after, rest', path'⟩

include stacked grounded connected within in
/-- Of the literals that failed at lower levels, those beyond the implication point are the exposed ones. -/
theorem exposed_iff (member : a ∈ t.stack) (negated : a.lit = l.negate) (lower : a.level < height t.stack) :
    Exposed conflict db t.stack (uip :: below) a ↔ OccursBeyond conflict db t.stack uip l := by
  have same : a.lit.negate = l := by rw [negated, Lit.negate_negate]
  rw [Exposed, OccursBeyond, same]
  refine or_congr_right ⟨?_, ?_⟩
  · rintro ⟨b, -, passed, reaches, id, reason, listed, -⟩
    obtain ⟨rest, path, after⟩ := (surveyed.passed_iff point above stacked grounded connected
      within).mp ⟨passed, reaches⟩
    exact ⟨rest, b, id, path, after, reason, same ▸ listed⟩
  · rintro ⟨rest, b, id, path, after, reason, listed⟩
    obtain ⟨passed, reaches⟩ := (surveyed.passed_iff point above stacked grounded connected
      within).mpr ⟨rest, path, after⟩
    obtain ⟨_, path'⟩ := reaches
    obtain ⟨there, level⟩ := path'.head
    refine ⟨b, there, passed, ⟨_, path'⟩, id, reason, same.symm ▸ listed, fun equal => ?_⟩
    obtain rfl := stacked.eq_of_var_eq member there (congrArg Lit.var equal :)
    exact Nat.ne_of_lt lower level

end Surveyed

/-- A literal beyond the implication point fails, unless it is of the current level. -/
theorem OccursBeyond.failsOn (occurs : OccursBeyond conflict db stack uip l)
    (grounded : Grounded db stack) (fails : ∀ l ∈ db.litsOf conflict, l.FailsOn stack)
    (differs : ∀ a ∈ stack, a.level = height stack → l ≠ a.lit) : l.FailsOn stack := by
  rcases occurs with listed | ⟨rest, b, id, path, after, reason, listed⟩
  · exact fails l listed
  · obtain ⟨_, -, path'⟩ := path.of_mem (List.mem_cons_of_mem _ after)
    obtain ⟨member, level⟩ := path'.head
    obtain ⟨below, within⟩ := exists_suffix_of_mem member
    exact (((grounded.suffix within).1 id reason).2 l listed (differs b member level)).mono
      ((List.suffix_cons b below).trans within).subset

end Point

end ClauseLearning
