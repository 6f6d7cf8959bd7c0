import ClauseLearning.Trail
import Mathlib.Data.List.Nodup

/-! # Stacks of assignments

A stack lists assignments with the latest one first. It is the view of a trail in which a proof by
induction meets the assignments in the order in which they are taken back: what lies below an
assignment was made before it. `Stacked` says that no variable is assigned twice and that levels
follow from the decisions, and `cut k` is the part of a stack of level at most `k`, which is all
that a return to level `k` leaves.
-/

namespace ClauseLearning

/-- The literal is made true by an assignment of the stack. -/
def Lit.HoldsOn (l : Lit) (stack : List Assignment) : Prop := ∃ a ∈ stack, a.lit = l

/-- The negation of the literal is made true by an assignment of the stack. -/
def Lit.FailsOn (l : Lit) (stack : List Assignment) : Prop := l.negate.HoldsOn stack

instance (l : Lit) (stack : List Assignment) : Decidable (l.HoldsOn stack) :=
  inferInstanceAs (Decidable (∃ a ∈ stack, a.lit = l))

instance (l : Lit) (stack : List Assignment) : Decidable (l.FailsOn stack) :=
  inferInstanceAs (Decidable (l.negate.HoldsOn stack))

/-- No assignment of the stack is on the variable of the literal. -/
def Lit.OpenOn (l : Lit) (stack : List Assignment) : Prop :=
  ¬ l.HoldsOn stack ∧ ¬ l.FailsOn stack

/-- The level of the latest assignment, which is the highest one in use. -/
def height : List Assignment → Nat
  | [] => 0
  | a :: _ => a.level

/-- The level that an assignment made on top of the stack belongs to. -/
def nextLevel (below : List Assignment) : Reason → Nat
  | .decision => height below + 1
  | .implied _ => height below

/-- No variable is assigned twice, decisions open one level after the other, and whatever is implied
belongs to the level open at the time. -/
inductive Stacked : List Assignment → Prop
  | nil : Stacked []
  | cons {a : Assignment} {below : List Assignment} : Stacked below →
      (∀ b ∈ below, b.var ≠ a.var) → a.level = nextLevel below a.reason → Stacked (a :: below)

/-- The assignments of level at most `k`. -/
def cut (k : Nat) (stack : List Assignment) : List Assignment :=
  stack.dropWhile fun a => decide (k < a.level)

section Suffixes
variable {α : Type} {xs below : List α} {x y : α}

theorem exists_suffix_of_mem (member : x ∈ xs) : ∃ below, x :: below <:+ xs := by
  obtain ⟨above, below, rfl⟩ := List.append_of_mem member
  exact ⟨below, above, rfl⟩

/-- What is in a list is part of a suffix, or the suffix starts after it. -/
theorem mem_or_exists_suffix (suffix : x :: below <:+ xs) (member : y ∈ xs) :
    y ∈ x :: below ∨ ∃ lower, y :: lower <:+ xs ∧ x ∈ lower := by
  obtain ⟨lower, suffix'⟩ := exists_suffix_of_mem member
  rcases List.suffix_or_suffix_of_suffix suffix' suffix with shorter | longer
  · exact .inl (shorter.subset (List.mem_cons_self ..))
  · rcases List.mem_cons.mp (longer.subset (List.mem_cons_self ..)) with rfl | after
    · exact .inl (List.mem_cons_self ..)
    · exact .inr ⟨lower, suffix', after⟩

end Suffixes

section Literals
variable {l : Lit} {a : Assignment} {stack below : List Assignment}

/-- A literal fails through an assignment of its own variable. -/
theorem Assignment.var_eq_of_lit_eq_negate (same : a.lit = l.negate) : a.var = l.var :=
  (congrArg Lit.var same :)

@[simp] theorem not_holdsOn_nil : ¬ l.HoldsOn [] := by
  rintro ⟨a, member, -⟩
  cases member

@[simp] theorem not_failsOn_nil : ¬ l.FailsOn [] := not_holdsOn_nil

@[simp] theorem holdsOn_cons_iff : l.HoldsOn (a :: below) ↔ a.lit = l ∨ l.HoldsOn below := by
  simp [Lit.HoldsOn]

@[simp] theorem failsOn_cons_iff :
    l.FailsOn (a :: below) ↔ a.lit = l.negate ∨ l.FailsOn below := holdsOn_cons_iff

@[simp] theorem failsOn_negate_iff : l.negate.FailsOn stack ↔ l.HoldsOn stack := by
  simp [Lit.FailsOn]

theorem Lit.HoldsOn.mono (holds : l.HoldsOn below) (included : below ⊆ stack) :
    l.HoldsOn stack := by
  obtain ⟨a, member, same⟩ := holds
  exact ⟨a, included member, same⟩

theorem Lit.FailsOn.mono (fails : l.FailsOn below) (included : below ⊆ stack) :
    l.FailsOn stack := Lit.HoldsOn.mono fails included

/-- Going back can only open literals. -/
theorem Lit.OpenOn.anti (isOpen : l.OpenOn stack) (included : below ⊆ stack) : l.OpenOn below :=
  ⟨fun holds => isOpen.1 (holds.mono included), fun fails => isOpen.2 (fails.mono included)⟩

/-- Two literals of one variable are equal or each other's negation. -/
theorem Lit.eq_or_eq_negate {l other : Lit} (same : l.var = other.var) :
    l = other ∨ l = other.negate := by
  obtain ⟨var, negative⟩ := l
  obtain ⟨other, negative'⟩ := other
  obtain rfl : var = other := same
  cases negative <;> cases negative' <;> simp [Lit.negate]

theorem Lit.negate_ne (l : Lit) : l.negate ≠ l := by
  intro same
  have flipped := congrArg Lit.negative same
  simp at flipped

theorem Lit.negate_injective {l other : Lit} (same : l.negate = other.negate) : l = other := by
  rw [← l.negate_negate, same, other.negate_negate]

/-- A literal is open exactly if its variable is not assigned. -/
theorem openOn_iff : l.OpenOn stack ↔ ∀ a ∈ stack, a.var ≠ l.var := by
  constructor
  · rintro ⟨notHolds, notFails⟩ a member same
    rcases Lit.eq_or_eq_negate same with equal | equal
    · exact notHolds ⟨a, member, equal⟩
    · exact notFails ⟨a, member, equal⟩
  · intro fresh
    constructor
    · rintro ⟨a, member, rfl⟩
      exact fresh a member rfl
    · rintro ⟨a, member, same⟩
      exact fresh a member (Assignment.var_eq_of_lit_eq_negate same)

@[simp] theorem openOn_negate_iff : l.negate.OpenOn stack ↔ l.OpenOn stack := by
  rw [openOn_iff, openOn_iff, Lit.negate_var]

end Literals

namespace Stacked
variable {l : Lit} {a b : Assignment} {stack below : List Assignment} {k j : Nat}

theorem tail (stacked : Stacked (a :: below)) : Stacked below := by
  cases stacked with
  | cons stacked _ _ => exact stacked

theorem fresh (stacked : Stacked (a :: below)) : ∀ b ∈ below, b.var ≠ a.var := by
  cases stacked with
  | cons _ fresh _ => exact fresh

theorem level_eq (stacked : Stacked (a :: below)) : a.level = nextLevel below a.reason := by
  cases stacked with
  | cons _ _ level => exact level

theorem height_below_le (stacked : Stacked (a :: below)) : height below ≤ a.level := by
  have level := stacked.level_eq
  cases reason : a.reason <;> simp only [reason, nextLevel] at level <;> omega

theorem level_le_succ (stacked : Stacked (a :: below)) : a.level ≤ height below + 1 := by
  have level := stacked.level_eq
  cases reason : a.reason <;> simp only [reason, nextLevel] at level <;> omega

theorem level_le_height (stacked : Stacked stack) (member : a ∈ stack) : a.level ≤ height stack := by
  induction stacked with
  | nil => cases member
  | cons stacked fresh level ih =>
    rcases List.mem_cons.mp member with rfl | member
    · exact Nat.le_refl _
    · exact Nat.le_trans (ih member) (Stacked.cons stacked fresh level).height_below_le

/-- Nothing below a decision belongs to its level. -/
theorem lt_of_decision (stacked : Stacked (a :: below)) (decision : a.reason = .decision)
    (member : b ∈ below) : b.level < a.level := by
  have bound := stacked.tail.level_le_height member
  have level := stacked.level_eq
  simp only [decision, nextLevel] at level
  omega

/-- A variable has one assignment. -/
theorem eq_of_var_eq (stacked : Stacked stack) (first : a ∈ stack) (second : b ∈ stack)
    (same : a.var = b.var) : a = b := by
  induction stacked with
  | nil => cases first
  | cons stacked fresh _ ih =>
    rcases List.mem_cons.mp first with rfl | under <;> rcases List.mem_cons.mp second with rfl | under'
    · rfl
    · exact (fresh b under' same.symm).elim
    · exact (fresh a under same).elim
    · exact ih under under'

/-- No literal holds and fails. -/
theorem not_fails_of_holds (stacked : Stacked stack) (holds : l.HoldsOn stack) :
    ¬ l.FailsOn stack := by
  rintro ⟨b, second, same⟩
  obtain ⟨a, first, rfl⟩ := holds
  obtain rfl := stacked.eq_of_var_eq first second (congrArg Lit.var same).symm
  exact Lit.negate_ne _ same.symm

/-- Every level up to the highest one has a decision. -/
theorem height_le_length (stacked : Stacked stack) : height stack ≤ stack.length := by
  induction stacked with
  | nil => exact Nat.le_refl _
  | cons stacked fresh level ih =>
    have step := (Stacked.cons stacked fresh level).level_le_succ
    simp only [height, List.length_cons]
    omega

/-- Each level in use above the lowest was opened by one decision. -/
theorem countP_isDecision (stacked : Stacked stack) :
    stack.countP Assignment.isDecision = height stack := by
  induction stacked with
  | nil => rfl
  | @cons a below _ _ level ih =>
    cases reason : a.reason with
    | decision =>
      rw [List.countP_cons_of_pos (by simp [Assignment.isDecision, reason]), ih, height, level, reason,
        nextLevel]
    | implied id =>
      rw [List.countP_cons_of_neg (by simp [Assignment.isDecision, reason]), ih, height, level, reason,
        nextLevel]

/-- Later assignments are of no lower level. -/
theorem pairwise_level_le (stacked : Stacked stack) : stack.Pairwise fun a b => b.level ≤ a.level := by
  induction stacked with
  | nil => exact .nil
  | cons stacked fresh level ih =>
    refine .cons (fun b member => ?_) ih
    exact (Stacked.cons stacked fresh level).level_le_height (List.mem_cons_of_mem _ member)

theorem nodup_vars (stacked : Stacked stack) : (stack.map Assignment.var).Nodup := by
  induction stacked with
  | nil => exact .nil
  | cons _ fresh _ ih =>
    refine List.nodup_cons.mpr ⟨?_, ih⟩
    intro member
    obtain ⟨b, member, same⟩ := List.mem_map.mp member
    exact fresh b member same

/-- Different literals that fail are of different variables. -/
theorem nodup_vars_of_failsOn (stacked : Stacked stack) {lits : List Lit} (distinct : lits.Nodup)
    (fails : ∀ l ∈ lits, l.FailsOn stack) : (lits.map Lit.var).Nodup := by
  refine List.Nodup.map_on (fun l member other member' same => ?_) distinct
  obtain ⟨a, listed, negated⟩ := fails l member
  obtain ⟨b, listed', negated'⟩ := fails other member'
  have var := Assignment.var_eq_of_lit_eq_negate negated
  have var' := Assignment.var_eq_of_lit_eq_negate negated'
  obtain rfl := stacked.eq_of_var_eq listed listed' (var.trans (same.trans var'.symm))
  exact Lit.negate_injective (negated.symm.trans negated')

end Stacked

section Cut
variable {a : Assignment} {stack below : List Assignment} {k j : Nat}

@[simp] theorem cut_nil : cut k [] = [] := rfl

theorem cut_cons_of_lt (above : k < a.level) : cut k (a :: below) = cut k below := by
  simp [cut, above]

theorem cut_cons_of_le (within : a.level ≤ k) : cut k (a :: below) = a :: below := by
  simp [cut, Nat.not_lt.mpr within]

theorem cut_suffix (k : Nat) (stack : List Assignment) : cut k stack <:+ stack :=
  List.dropWhile_suffix _

theorem cut_subset (k : Nat) (stack : List Assignment) : cut k stack ⊆ stack :=
  (cut_suffix k stack).subset

/-- What is left of a longer stack has what is left of a shorter one below it. -/
theorem cut_suffix_cut (suffix : below <:+ stack) : cut k below <:+ cut k stack := by
  obtain ⟨above, rfl⟩ := suffix
  induction above with
  | nil => exact List.suffix_rfl
  | cons a above ih =>
    rw [List.cons_append]
    rcases Nat.lt_or_ge k a.level with higher | within
    · rw [cut_cons_of_lt higher]
      exact ih
    · rw [cut_cons_of_le within]
      exact (ih.trans (cut_suffix k _)).trans (List.suffix_cons a _)

theorem Stacked.suffix (stacked : Stacked stack) (suffix : below <:+ stack) : Stacked below := by
  obtain ⟨above, rfl⟩ := suffix
  induction above with
  | nil => exact stacked
  | cons a above ih => exact ih stacked.tail

/-- What is of a lower level than an assignment lies below it. -/
theorem Stacked.mem_of_level_lt (stacked : Stacked stack) (suffix : a :: below <:+ stack) {b : Assignment}
    (member : b ∈ stack) (lower : b.level < a.level) : b ∈ below := by
  rcases mem_or_exists_suffix suffix member with kept | ⟨under, suffix', after⟩
  · exact (List.mem_cons.mp kept).resolve_left fun same => Nat.ne_of_lt lower (same ▸ rfl)
  · have bound := (stacked.suffix suffix').level_le_height (List.mem_cons_of_mem _ after)
    exact (Nat.not_lt.mpr bound lower).elim

theorem Stacked.cut (stacked : Stacked stack) (k : Nat) : Stacked (cut k stack) :=
  stacked.suffix (cut_suffix k stack)

/-- Nothing is taken away by a return to a level that is not left. -/
theorem Stacked.cut_eq_self (stacked : Stacked stack) (within : height stack ≤ k) :
    ClauseLearning.cut k stack = stack := by
  cases stacked with
  | nil => rfl
  | cons _ _ _ => exact cut_cons_of_le within

/-- The assignments left by a return are those of the levels kept. -/
theorem Stacked.mem_cut_iff (stacked : Stacked stack) :
    a ∈ ClauseLearning.cut k stack ↔ a ∈ stack ∧ a.level ≤ k := by
  induction stacked with
  | nil => simp
  | @cons b below stacked fresh level ih =>
    rcases Nat.lt_or_ge k b.level with above | within
    · rw [cut_cons_of_lt above, ih]
      constructor
      · rintro ⟨member, bound⟩
        exact ⟨List.mem_cons_of_mem _ member, bound⟩
      · rintro ⟨member, bound⟩
        rcases List.mem_cons.mp member with rfl | member
        · omega
        · exact ⟨member, bound⟩
    · rw [cut_cons_of_le within]
      refine ⟨fun member => ⟨member, ?_⟩, And.left⟩
      exact Nat.le_trans ((Stacked.cons stacked fresh level).level_le_height member) within

/-- So a return leaves as it is the order of what it leaves. -/
theorem Stacked.cut_eq_filter (stacked : Stacked stack) (k : Nat) :
    ClauseLearning.cut k stack = stack.filter (·.level ≤ k) := by
  induction stacked with
  | nil => rfl
  | @cons b below stacked fresh level ih =>
    rcases Nat.lt_or_ge k b.level with above | within
    · rw [cut_cons_of_lt above, ih, List.filter_cons_of_neg (by simpa using above)]
    · rw [cut_cons_of_le within, eq_comm, List.filter_eq_self]
      intro c member
      have bound : c.level ≤ b.level := (Stacked.cons stacked fresh level).level_le_height member
      exact decide_eq_true (Nat.le_trans bound within)

/-- Every level up to the highest one is there to return to. -/
theorem Stacked.height_cut (stacked : Stacked stack) (within : k ≤ height stack) :
    height (ClauseLearning.cut k stack) = k := by
  induction stacked with
  | nil =>
    simp only [height] at within
    simp only [cut_nil, height]
    omega
  | @cons b below stacked fresh level ih =>
    have step := (Stacked.cons stacked fresh level).level_le_succ
    rcases Nat.lt_or_ge k b.level with above | bound
    · rw [cut_cons_of_lt above]
      exact ih (by omega)
    · rw [cut_cons_of_le bound]
      exact Nat.le_antisymm bound within

theorem cut_cut (within : j ≤ k) (stack : List Assignment) : cut j (cut k stack) = cut j stack := by
  induction stack with
  | nil => rfl
  | cons a below ih =>
    rcases Nat.lt_or_ge k a.level with above | bound
    · rw [cut_cons_of_lt above, ih, cut_cons_of_lt (by omega)]
    · rw [cut_cons_of_le bound]

/-- What is made above a level is taken away by the return to it. -/
theorem cut_append_of_lt {above : List Assignment} (higher : ∀ a ∈ above, k < a.level)
    (stack : List Assignment) : cut k (above ++ stack) = cut k stack := by
  induction above with
  | nil => rfl
  | cons a above ih =>
    rw [List.cons_append, cut_cons_of_lt (higher a (List.mem_cons_self ..))]
    exact ih fun b member => higher b (List.mem_cons_of_mem _ member)

end Cut

end ClauseLearning
