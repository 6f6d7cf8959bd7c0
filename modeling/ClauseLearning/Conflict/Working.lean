import ClauseLearning.Trail

/-! # The clause under construction in conflict analysis

Analysis starts from a falsified clause and replaces literals of the current level one by one by the
reasons for their failing. The clause in between is kept in parts: its literals of lower levels are
listed, those of the current level are only counted, and a table over variables says which ones
occur. Literals that failed at level zero fail in every model, so they are left out as they are met.
-/

namespace ClauseLearning

/-- A clause under construction at a level. -/
structure WorkingClause where
  level : Nat
  /-- For each variable, whether it occurs. -/
  marked : Array Bool
  /-- How many of the marked variables were assigned at the level. -/
  atLevel : Nat
  /-- The literals assigned below the level but above zero, in the order in which they were met. -/
  lower : List Lit
deriving Repr, Inhabited

namespace WorkingClause

def empty (vars level : Nat) : WorkingClause := ⟨level, Array.replicate vars false, 0, []⟩

/-- The clause with a failed literal added, unless its variable occurs already or was assigned at
level zero. -/
def add (work : WorkingClause) (t : Trail) (l : Lit) : Checked WorkingClause := do
  if ← fetch work.marked l.var then return work
  let level := (← t.levelOf l.var).getD 0
  if level = 0 then return work
  let ⟨current, marked, atLevel, lower⟩ := work
  let marked ← store marked l.var true
  if current ≤ level then return ⟨current, marked, atLevel + 1, lower⟩
  else return ⟨current, marked, atLevel, lower ++ [l]⟩

def addAll (t : Trail) : List Lit → WorkingClause → Checked WorkingClause
  | [], work => return work
  | l :: rest, work => do addAll t rest (← work.add t l)

/-- The clause without the literal of a marked variable of the current level. -/
def drop (work : WorkingClause) (var : Nat) : Checked WorkingClause := do
  let ⟨current, marked, atLevel, lower⟩ := work
  return ⟨current, ← store marked var false, atLevel - 1, lower⟩

end WorkingClause

end ClauseLearning
