import ClauseLearning.Proofs.Checked
import ClauseLearning.Proofs.Trail.Stack

/-! # The tables of a trail agree with its assignments

A trail keeps tables beside the list of its assignments. `Coherent` says that they all describe one
stack: the value and the place of each variable, the start of each level, and a cursor within the
list. Every operation of a trail is described here through the stack, and keeps the tables coherent.
-/

namespace ClauseLearning

def Lit.truthOn (l : Lit) (stack : List Assignment) : TruthValue :=
  match stack.find? (fun a => a.var == l.var) with
  | some a => .ofBool (a.lit == l)
  | none => .unknown

def levelOn (stack : List Assignment) (var : Nat) : Option Nat :=
  (stack.find? (fun a => a.var == var)).map Assignment.level

/-- For each level, how many assignments a stack had when the level was opened. -/
def levelStartsOf : List Assignment → List Nat
  | [] => [0]
  | a :: below =>
    if a.isDecision then levelStartsOf below ++ [below.length] else levelStartsOf below

namespace Trail

/-- The assignments of the trail, the latest one first. -/
def stack (t : Trail) : List Assignment := t.entries.toList.reverse

/-- The tables of the trail describe its assignments. -/
structure Coherent (t : Trail) : Prop where
  stacked : Stacked t.stack
  starts : t.levelStarts.toList = levelStartsOf t.stack
  positionCount : t.positions.size = t.varCount
  /-- An assignment is found under its variable, in both tables. -/
  placed : ∀ {place : Nat} {a : Assignment}, t.entries[place]? = some a →
    t.values[a.var]? = some (.ofBool a.value) ∧ t.positions[a.var]? = some place
  /-- A value in the table comes from an assignment. -/
  listed : ∀ {var : Nat} {value : TruthValue}, t.values[var]? = some value → value ≠ .unknown →
    ∃ a ∈ t.stack, a.var = var
  cursor_le : t.cursor ≤ t.size

@[simp] theorem length_stack (t : Trail) : t.stack.length = t.size := by
  simp [stack, size]

theorem mem_stack_iff {t : Trail} {a : Assignment} :
    a ∈ t.stack ↔ ∃ place : Nat, t.entries[place]? = some a := by
  rw [stack, List.mem_reverse, List.mem_iff_getElem?]
  simp only [Array.getElem?_toList]

end Trail

section Views
variable {l : Lit} {a : Assignment} {stack : List Assignment}

/-- Of a variable that is assigned, the assignment is the one found. -/
theorem Stacked.find?_eq (stacked : Stacked stack) (member : a ∈ stack) :
    stack.find? (fun b => b.var == a.var) = some a := by
  cases found : stack.find? (fun b => b.var == a.var) with
  | none =>
    have absent := List.find?_eq_none.mp found a member
    simp at absent
  | some b =>
    have same : b.var = a.var := by simpa using List.find?_some found
    rw [stacked.eq_of_var_eq (List.mem_of_find?_eq_some found) member same]

theorem Stacked.truthOn_eq (stacked : Stacked stack) (member : a ∈ stack) (same : a.var = l.var) :
    l.truthOn stack = .ofBool (a.lit == l) := by
  rw [Lit.truthOn, ← same, stacked.find?_eq member]

theorem truthOn_eq_unknown_iff : l.truthOn stack = .unknown ↔ l.OpenOn stack := by
  rw [openOn_iff, Lit.truthOn]
  cases found : stack.find? (fun a => a.var == l.var) with
  | none => simpa using List.find?_eq_none.mp found
  | some a =>
    have same : a.var = l.var := by simpa using List.find?_some found
    constructor
    · intro unknown
      cases held : a.lit == l <;> simp [held, TruthValue.ofBool] at unknown
    · intro fresh
      exact (fresh a (List.mem_of_find?_eq_some found) same).elim

theorem Stacked.truthOn_eq_holds_iff (stacked : Stacked stack) :
    l.truthOn stack = .holds ↔ l.HoldsOn stack := by
  constructor
  · intro value
    rw [Lit.truthOn] at value
    cases found : stack.find? (fun a => a.var == l.var) with
    | none => simp [found] at value
    | some a =>
      refine ⟨a, List.mem_of_find?_eq_some found, ?_⟩
      cases held : a.lit == l
      · simp [found, held, TruthValue.ofBool] at value
      · exact eq_of_beq held
  · rintro ⟨a, member, rfl⟩
    simp [stacked.truthOn_eq member rfl, TruthValue.ofBool]

theorem Stacked.truthOn_eq_fails_iff (stacked : Stacked stack) :
    l.truthOn stack = .fails ↔ l.FailsOn stack := by
  constructor
  · intro value
    rw [Lit.truthOn] at value
    cases found : stack.find? (fun a => a.var == l.var) with
    | none => simp [found] at value
    | some a =>
      have same : a.var = l.var := by simpa using List.find?_some found
      refine ⟨a, List.mem_of_find?_eq_some found, ?_⟩
      rcases Lit.eq_or_eq_negate same with equal | equal
      · simp [found, equal, TruthValue.ofBool] at value
      · exact equal
  · rintro ⟨a, member, same⟩
    have differs : (a.lit == l) = false := by
      rw [same]
      exact beq_false_of_ne l.negate_ne
    have sameVar := Assignment.var_eq_of_lit_eq_negate same
    rw [stacked.truthOn_eq member sameVar, differs]
    rfl

theorem Stacked.levelOn_eq (stacked : Stacked stack) (member : a ∈ stack) :
    levelOn stack a.var = some a.level := by
  rw [levelOn, stacked.find?_eq member]
  rfl

end Views

section LevelStarts
variable {stack : List Assignment} {k : Nat}

theorem Stacked.length_levelStartsOf (stacked : Stacked stack) :
    (levelStartsOf stack).length = height stack + 1 := by
  induction stacked with
  | nil => rfl
  | @cons a below _ _ level ih =>
    cases reason : a.reason <;>
      simp_all [levelStartsOf, nextLevel, height, Assignment.isDecision]

/-- A level above the lowest starts where the levels below it end. -/
theorem Stacked.levelStartsOf_getElem? (stacked : Stacked stack) (within : k < height stack) :
    (levelStartsOf stack)[k + 1]? = some (ClauseLearning.cut k stack).length := by
  induction stacked with
  | nil => simp [height] at within
  | @cons a below stacked fresh level ih =>
    have starts := stacked.length_levelStartsOf
    simp only [height] at within
    rw [cut_cons_of_lt within]
    cases reason : a.reason with
    | decision =>
      simp only [reason, nextLevel] at level
      simp only [levelStartsOf, Assignment.isDecision, reason, beq_self_eq_true, if_true]
      rcases Nat.lt_or_ge k (height below) with inside | top
      · rw [List.getElem?_append_left (by omega)]
        exact ih inside
      · rw [List.getElem?_append_right (by omega), stacked.cut_eq_self top]
        simp [show k + 1 - (levelStartsOf below).length = 0 by omega]
    | implied id =>
      simp only [reason, nextLevel] at level
      have implied : a.isDecision = false := by simp [Assignment.isDecision, reason]
      simp only [levelStartsOf, implied, Bool.false_eq_true, if_false]
      exact ih (by omega)

/-- The starts of the levels kept by a return are those of what is left. -/
theorem Stacked.take_levelStartsOf (stacked : Stacked stack) (within : k ≤ height stack) :
    (levelStartsOf stack).take (k + 1) = levelStartsOf (ClauseLearning.cut k stack) := by
  induction stacked with
  | nil =>
    simp only [height] at within
    simp [levelStartsOf]
  | @cons a below stacked fresh level ih =>
    have starts := stacked.length_levelStartsOf
    simp only [height] at within
    rcases Nat.lt_or_ge k a.level with above | bound
    · rw [cut_cons_of_lt above]
      have step := (Stacked.cons stacked fresh level).level_le_succ
      rw [← ih (by omega)]
      simp only [levelStartsOf]
      split
      · exact List.take_append_of_le_length (by omega)
      · rfl
    · rw [cut_cons_of_le bound]
      apply List.take_of_length_le
      rw [(Stacked.cons stacked fresh level).length_levelStartsOf]
      simp only [height]
      omega

end LevelStarts

end ClauseLearning
