import ClauseLearning.Fault

/-! # Computations that stop without a fault

`Yields c Good` says that the checked computation `c` ends with a value, and that the value is
`Good`. It is the form in which operations are specified: a fault is excluded and the result is
described at once, so that the specification of a sequence is put together from those of its parts.
-/

namespace ClauseLearning

/-- The computation ends without a fault, in a value of the kind described. -/
def Yields {α : Type} (c : Checked α) (Good : α → Prop) : Prop :=
  ∃ value, c = .ok value ∧ Good value

variable {α β : Type} {Good : α → Prop} {Fine : β → Prop}

theorem Yields.intro {c : Checked α} {value : α} (same : c = .ok value) (good : Good value) :
    Yields c Good := ⟨value, same, good⟩

@[simp] theorem yields_ok_iff {value : α} : Yields (.ok value) Good ↔ Good value := by
  constructor
  · rintro ⟨_, same, good⟩
    cases same
    exact good
  · exact Yields.intro rfl

@[simp] theorem yields_pure_iff {value : α} : Yields (pure value) Good ↔ Good value :=
  yields_ok_iff

@[simp] theorem ok_bind (value : α) (next : α → Checked β) :
    ((.ok value : Checked α) >>= next) = next value := rfl

@[simp] theorem pure_bind_checked (value : α) (next : α → Checked β) :
    ((pure value : Checked α) >>= next) = next value := rfl

/-- A sequence is specified through what its first part yields. -/
theorem Yields.bind {first : Checked α} {next : α → Checked β} (before : Yields first Good)
    (after : ∀ value, Good value → Yields (next value) Fine) : Yields (first >>= next) Fine := by
  obtain ⟨value, rfl, good⟩ := before
  exact after value good

theorem Yields.imp {c : Checked α} {Better : α → Prop} (yields : Yields c Better)
    (weaken : ∀ value, Better value → Good value) : Yields c Good := by
  obtain ⟨value, same, better⟩ := yields
  exact ⟨value, same, weaken value better⟩

/-- A sequence of which something is known in the end has gone through some value. -/
theorem exists_of_bind_map_eq {γ : Type} {first : Checked α} {next : α → Checked β} {view : β → γ}
    {seen : γ} (same : (first >>= next).map view = .ok seen) :
    ∃ middle result, first = .ok middle ∧ next middle = .ok result ∧ view result = seen := by
  cases first with
  | error fault => cases same
  | ok middle =>
    rw [ok_bind] at same
    cases ended : next middle with
    | error fault =>
      rw [ended] at same
      cases same
    | ok result =>
      rw [ended] at same
      cases same
      exact ⟨middle, result, rfl, ended, rfl⟩

/-- A sequence that ends in a pair has gone through some value. -/
theorem exists_of_bind_fst_eq {γ : Type} {first : Checked α} {next : α → Checked (β × γ)} {value : β}
    (same : (first >>= next).map Prod.fst = .ok value) :
    ∃ middle rest, first = .ok middle ∧ next middle = .ok (value, rest) := by
  obtain ⟨middle, ⟨_, rest⟩, before, ended, rfl⟩ := exists_of_bind_map_eq same
  exact ⟨middle, rest, before, ended⟩

/-- What a computation yields is determined by it. -/
theorem Yields.of_eq {c : Checked α} {value : α} (yields : Yields c Good) (same : c = .ok value) :
    Good value := by
  rw [same] at yields
  exact yields_ok_iff.mp yields

end ClauseLearning
