import ClauseLearning.Proofs.Conflict.Grounded

/-! # Paths to a conflict

The entries of the current level form a graph. An entry feeds another one if the other was implied by a
clause in which the literal of the first one fails, and the last entries of paths make literals of the
falsified clause fail. In a grounded stack an entry is fed from below, so a path only goes up, and a path
that has left a part of the stack does not come back to it.
-/

namespace ClauseLearning

/-- The first entry makes one of the other literals fail in the clause that implied the second. -/
def Feeds (db : Database) (a b : Assignment) : Prop :=
  ∃ id, b.reason = .implied id ∧ a.lit.negate ∈ db.litsOf id ∧ a.lit.negate ≠ b.lit

instance (db : Database) (a b : Assignment) : Decidable (Feeds db a b) :=
  match reason : b.reason with
  | .decision => isFalse <| by simp [Feeds, reason]
  | .implied id =>
    decidable_of_iff (a.lit.negate ∈ db.litsOf id ∧ a.lit.negate ≠ b.lit) <| by simp [Feeds, reason]

/-- A path to the conflict at a clause: entries of the current level, each of which feeds the next one, and
the last of which makes a literal of the clause fail. -/
inductive Path (conflict : Nat) (db : Database) (stack : List Assignment) : List Assignment → Prop
  | last {a : Assignment} : a ∈ stack → a.level = height stack →
      a.lit.negate ∈ db.litsOf conflict → Path conflict db stack [a]
  | cons {a b : Assignment} {rest : List Assignment} : a ∈ stack → a.level = height stack →
      Feeds db a b → Path conflict db stack (b :: rest) → Path conflict db stack (a :: b :: rest)

/-- Every implied entry of a level above zero is fed from its own level. -/
def Connected (db : Database) (stack : List Assignment) : Prop :=
  ∀ a ∈ stack, a.reason ≠ .decision → 1 ≤ a.level → ∃ b ∈ stack, b.level = a.level ∧ Feeds db b a

instance (db : Database) (stack : List Assignment) : Decidable (Connected db stack) :=
  inferInstanceAs (Decidable (∀ a ∈ stack, a.reason ≠ .decision → 1 ≤ a.level →
    ∃ b ∈ stack, b.level = a.level ∧ Feeds db b a))

section Graph
variable {conflict : Nat} {db : Database} {stack remaining below nodes rest : List Assignment}
  {a b : Assignment}

/-- An entry is fed by earlier ones. -/
theorem Feeds.mem_below (feeds : Feeds db a b) (stacked : Stacked stack) (grounded : Grounded db stack)
    (member : a ∈ stack) (within : b :: below <:+ stack) : a ∈ below := by
  obtain ⟨id, reason, listed, differs⟩ := feeds
  obtain ⟨c, under, same⟩ := ((grounded.suffix within).1 id reason).2 _ listed differs
  rw [Lit.negate_negate] at same
  have there := within.subset (List.mem_cons_of_mem _ under)
  obtain rfl := stacked.eq_of_var_eq there member (congrArg Lit.var same)
  exact under

theorem Feeds.mem_suffix (feeds : Feeds db a b) (stacked : Stacked stack) (grounded : Grounded db stack)
    (member : a ∈ stack) (within : remaining <:+ stack) (kept : b ∈ remaining) : a ∈ remaining := by
  obtain ⟨below, suffix⟩ := exists_suffix_of_mem kept
  exact suffix.subset
    (List.mem_cons_of_mem _ (feeds.mem_below stacked grounded member (suffix.trans within)))

/-- What an entry feeds is later. -/
theorem Feeds.not_mem (feeds : Feeds db a b) (stacked : Stacked stack) (grounded : Grounded db stack)
    (within : a :: below <:+ stack) : b ∉ a :: below := by
  have member := within.subset (List.mem_cons_self ..)
  have fresh : a ∉ below := fun under => (stacked.suffix within).fresh a under rfl
  intro kept
  rcases List.mem_cons.mp kept with rfl | under
  · exact fresh (feeds.mem_below stacked grounded member within)
  · exact fresh
      (feeds.mem_suffix stacked grounded member ((List.suffix_cons a below).trans within) under)

namespace Path

theorem head (path : Path conflict db stack (a :: rest)) : a ∈ stack ∧ a.level = height stack := by
  cases path with
  | last member level _ => exact ⟨member, level⟩
  | cons member level _ _ => exact ⟨member, level⟩

theorem suffix (path : Path conflict db stack nodes) (within : a :: rest <:+ nodes) :
    Path conflict db stack (a :: rest) := by
  induction path with
  | last member level listed =>
    rcases List.suffix_cons_iff.mp within with same | shorter
    · rw [same]
      exact .last member level listed
    · cases List.suffix_nil.mp shorter
  | cons member level feeds tail ih =>
    rcases List.suffix_cons_iff.mp within with same | shorter
    · rw [same]
      exact .cons member level feeds tail
    · exact ih shorter

/-- Each entry of a path has a path of its own. -/
theorem of_mem (path : Path conflict db stack nodes) (member : a ∈ nodes) :
    ∃ rest, a :: rest <:+ nodes ∧ Path conflict db stack (a :: rest) := by
  obtain ⟨rest, within⟩ := exists_suffix_of_mem member
  exact ⟨rest, within, path.suffix within⟩

/-- A path that starts outside a lower part of the stack stays outside. -/
theorem not_mem_suffix (path : Path conflict db stack (a :: rest)) (stacked : Stacked stack)
    (grounded : Grounded db stack) (within : remaining <:+ stack) (outside : a ∉ remaining) :
    ∀ b ∈ a :: rest, b ∉ remaining := by
  induction rest generalizing a with
  | nil => simpa using outside
  | cons next rest ih =>
    cases path with
    | cons member _ feeds tail =>
      intro b listed
      rcases List.mem_cons.mp listed with rfl | listed
      · exact outside
      · exact ih tail (fun kept => outside (feeds.mem_suffix stacked grounded member within kept)) b
          listed

/-- A path goes on with later entries. -/
theorem not_mem_of_mem_tail (path : Path conflict db stack (a :: rest)) (stacked : Stacked stack)
    (grounded : Grounded db stack) (within : a :: below <:+ stack) : ∀ b ∈ rest, b ∉ a :: below := by
  cases path with
  | last => simp
  | cons _ _ feeds tail =>
    exact tail.not_mem_suffix stacked grounded within (feeds.not_mem stacked grounded within)

end Path

/-- In a connected stack a path can be traced back to the decision of the current level, through entries
that are no later than where it starts. -/
theorem Connected.exists_path_from_decision (connected : Connected db stack) (stacked : Stacked stack)
    (grounded : Grounded db stack) (above : 0 < height stack) (within : remaining <:+ stack)
    (kept : a ∈ remaining) (path : Path conflict db stack (a :: rest)) :
    ∃ start front, start.reason = .decision ∧ Path conflict db stack (start :: front) ∧
      a :: rest <:+ start :: front ∧ ∀ b ∈ start :: front, b ∈ remaining ∨ b ∈ rest := by
  induction remaining generalizing a rest with
  | nil => cases kept
  | cons c below ih =>
    have under := (List.suffix_cons c below).trans within
    rcases List.mem_cons.mp kept with rfl | lower
    · obtain ⟨member, level⟩ := path.head
      by_cases decision : a.reason = .decision
      · refine ⟨a, rest, decision, path, List.suffix_rfl, fun b listed => ?_⟩
        rcases List.mem_cons.mp listed with rfl | listed
        · exact .inl (List.mem_cons_self ..)
        · exact .inr listed
      · obtain ⟨b, member', level', feeds⟩ := connected a member decision (level ▸ above)
        have lower := feeds.mem_below stacked grounded member' within
        obtain ⟨start, front, first, longer, suffix, origin⟩ :=
          ih under lower (.cons member' (level'.trans level) feeds path)
        refine ⟨start, front, first, longer, (List.suffix_cons b _).trans suffix, fun c listed => ?_⟩
        rcases origin c listed with earlier | later
        · exact .inl (List.mem_cons_of_mem _ earlier)
        · rcases List.mem_cons.mp later with rfl | later
          · exact .inl (List.mem_cons_self ..)
          · exact .inr later
    · obtain ⟨start, front, first, longer, suffix, origin⟩ := ih under lower path
      exact ⟨start, front, first, longer, suffix, fun b listed =>
        (origin b listed).imp_left (List.mem_cons_of_mem _)⟩

/-- If the levels below the current one were closed, no clause could have been waiting to imply a literal at
a higher level. -/
theorem connected_of_settledOn (stacked : Stacked stack) (grounded : Grounded db stack)
    (settled : ∀ k < height stack, db.SettledOn (cut k stack)) : Connected db stack := by
  intro a member implied above
  cases reason : a.reason with
  | decision => exact (implied reason).elim
  | implied id =>
    obtain ⟨below, within⟩ := exists_suffix_of_mem member
    obtain ⟨listed, fails⟩ := (grounded.suffix within).1 id reason
    have bound := stacked.level_le_height member
    by_contra unfed
    refine (settled (a.level - 1) (by omega) id (Database.lt_size_of_mem listed)).not_unit
      (stacked.cut _) (l := a.lit) (openOn_iff.mpr fun b kept same => ?_) fun l listed differs => ?_
    · obtain ⟨there, lower⟩ := stacked.mem_cut_iff.mp kept
      obtain rfl := stacked.eq_of_var_eq there member same
      omega
    · obtain ⟨b, under, negated⟩ := fails l listed differs
      have there := within.subset (List.mem_cons_of_mem _ under)
      have same : b.lit.negate = l := by rw [negated, Lit.negate_negate]
      have lower : b.level ≤ a.level :=
        (stacked.suffix within).level_le_height (List.mem_cons_of_mem _ under)
      have different : b.level ≠ a.level := fun level =>
        unfed ⟨b, there, level, id, reason, same ▸ listed, same ▸ differs⟩
      exact ⟨b, stacked.mem_cut_iff.mpr ⟨there, by omega⟩, negated⟩

end Graph

end ClauseLearning
