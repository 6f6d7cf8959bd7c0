import ClauseLearning.Proofs.Input.Built

/-! # Clauses offered to a formula

A formula is offered clauses one after the other, and it goes on after a refusal. Each clause is judged
by itself: it is refused for its first integer that stands for no literal over the variables, and it is
kept if there is none. So the formula always has the clauses accepted so far, in their order, and its
literals stay within its variables, whatever else has been offered.
-/

namespace ClauseLearning.Formula

def offerAll (f : Formula) : List (List Int) → Checked (List (Option InputError) × Formula)
  | [] => return ([], f)
  | clause :: rest => do
    let (answer, f) ← f.offer clause
    let (answers, f) ← f.offerAll rest
    return (answer :: answers, f)

/-- The complaint about an integer that stands for no literal over the variables. -/
def complaint (vars : Nat) (x : Int) : InputError :=
  if x = 0 then .zeroLiteral else .variableOutOfRange x.natAbs vars

/-- The answer to a clause: the complaint about its first integer that stands for no literal over the
variables, if there is one. -/
def answer (vars : Nat) (clause : List Int) : Option InputError :=
  (clause.find? fun x => ¬ Admits vars x).map (complaint vars)

/-- What answers come to if a refusal is the end: the formula, or the first reason. -/
def upshot (answers : List (Option InputError)) (f : Formula) : Except InputError Formula :=
  match answers.findSome? id with
  | none => .ok f
  | some reason => .error reason

/-- The clause is refused for its first integer that stands for no literal over the variables. -/
def Refuses (vars : Nat) (clause : List Int) (reason : InputError) : Prop :=
  ∃ front x back, clause = front ++ x :: back ∧ (∀ y ∈ front, Admits vars y) ∧ ¬ Admits vars x ∧
    reason = complaint vars x

def offered (f : Formula) (clause : List Int) : Formula :=
  if ∀ x ∈ clause, Admits f.varCount x then
    { f with clauses := f.clauses.push (clause.map Lit.ofNonzero) }
  else f

section Offer
variable {f : Formula} {vars : Nat} {x : Int} {clause : List Int}

theorem answer_eq_none_iff : answer vars clause = none ↔ ∀ x ∈ clause, Admits vars x := by
  simp [answer]

theorem answer_eq_some_iff {reason : InputError} :
    answer vars clause = some reason ↔ Refuses vars clause reason := by
  simp only [answer, Option.map_eq_some_iff, List.find?_eq_some_iff_append, Refuses]
  constructor
  · rintro ⟨x, ⟨misfit, front, back, rfl, before⟩, rfl⟩
    exact ⟨front, x, back, rfl, by simpa using before, by simpa using misfit, rfl⟩
  · rintro ⟨front, x, back, rfl, before, misfit, rfl⟩
    exact ⟨x, ⟨by simpa using misfit, front, back, rfl, by simpa using before⟩, rfl⟩

@[simp] theorem varCount_offered : (f.offered clause).varCount = f.varCount := by
  unfold offered
  split <;> rfl

theorem offered_of_refused (refused : ¬ ∀ x ∈ clause, Admits f.varCount x) : f.offered clause = f :=
  if_neg refused

theorem toInts_offered (f : Formula) (clause : List Int) : (f.offered clause).toInts =
    f.toInts ++ [clause].filter fun clause => ∀ x ∈ clause, Admits f.varCount x := by
  by_cases admitted : ∀ x ∈ clause, Admits f.varCount x
  · have nonzero : 0 ∉ clause := fun member => (admitted 0 member).1 rfl
    rw [offered, if_pos admitted, toInts_push nonzero, List.filter_cons_of_pos (by simpa using admitted),
      List.filter_nil]
  · rw [offered_of_refused admitted, List.filter_cons_of_neg (by simpa using admitted), List.filter_nil,
      List.append_nil]

/-- Up to 2 ^ 31 variables, a refusal is a complaint. -/
theorem refusal_eq_complaint (small : vars ≤ 2 ^ 31) (x : Int) :
    refusal vars x = .ok (complaint vars x) := by
  have safe : ¬ (Lit.Codeless x ∧ x.natAbs ≤ vars) := fun ⟨⟨large, _⟩, within⟩ => by omega
  rw [refusal, complaint, if_neg safe]
  split <;> rfl

theorem offer_eq (small : f.varCount ≤ 2 ^ 31) (clause : List Int) :
    f.offer clause = .ok (answer f.varCount clause, f.offered clause) := by
  cases answered : answer f.varCount clause with
  | none =>
    have admitted := answer_eq_none_iff.mp answered
    rw [offered, if_pos admitted]
    exact offer_of_fits fun x member => (fits_iff_admits small).mpr (admitted x member)
  | some reason =>
    have refused : ¬ ∀ x ∈ clause, Admits f.varCount x := by
      rw [← answer_eq_none_iff, answered]
      exact nofun
    have same : misfit? f.varCount clause = clause.find? fun x => ¬ Admits f.varCount x := by
      simp only [misfit?, fits_iff_admits small]
    obtain ⟨x, first, rfl⟩ := Option.map_eq_some_iff.mp answered
    rw [offer_of_misfit (same.trans first), refusal_eq_complaint small, offered_of_refused refused]
    rfl

theorem addClause_of_accepted (small : f.varCount ≤ 2 ^ 31)
    (accepted : answer f.varCount clause = none) :
    f.addClause clause = .ok (.ok (f.offered clause)) := by
  rw [addClause, offer_eq small, accepted]
  rfl

theorem addClause_of_refused {reason : InputError} (small : f.varCount ≤ 2 ^ 31)
    (refused : answer f.varCount clause = some reason) : f.addClause clause = .ok (.error reason) := by
  rw [addClause, offer_eq small, refused]
  rfl

end Offer

section OfferAll
variable {f : Formula} {vars : Nat}

theorem offerAll_eq (small : f.varCount ≤ 2 ^ 31) (clauses : List (List Int)) :
    f.offerAll clauses = .ok (clauses.map (answer f.varCount), clauses.foldl offered f) := by
  induction clauses generalizing f with
  | nil => rfl
  | cons clause rest ih =>
    have later := ih (f := f.offered clause) (by simpa using small)
    simp only [offerAll, offer_eq small, ok_bind, later, varCount_offered]
    rfl

/-- Adding clauses comes to what offering them comes to if a refusal is the end. -/
theorem addClauses_eq (small : f.varCount ≤ 2 ^ 31) (clauses : List (List Int)) :
    f.addClauses clauses =
      .ok (upshot (clauses.map (answer f.varCount)) (clauses.foldl offered f)) := by
  induction clauses generalizing f with
  | nil => rfl
  | cons clause rest ih =>
    cases answered : answer f.varCount clause with
    | none =>
      have later := ih (f := f.offered clause) (by simpa using small)
      rw [varCount_offered] at later
      simp only [addClauses, addClause_of_accepted small answered, ok_bind, later, List.map_cons, answered]
      rfl
    | some reason =>
      simp only [addClauses, addClause_of_refused small answered, ok_bind, List.map_cons, answered]
      rfl

@[simp] theorem varCount_foldl_offered (clauses : List (List Int)) :
    (clauses.foldl offered f).varCount = f.varCount := by
  induction clauses generalizing f with
  | nil => rfl
  | cons clause rest ih => rw [List.foldl_cons, ih, varCount_offered]

theorem toInts_foldl_offered (clauses : List (List Int)) : (clauses.foldl offered f).toInts =
    f.toInts ++ clauses.filter fun clause => ∀ x ∈ clause, Admits f.varCount x := by
  induction clauses generalizing f with
  | nil => simp
  | cons clause rest ih =>
    rw [List.foldl_cons, ih, toInts_offered, varCount_offered, List.append_assoc, ← List.filter_append,
      List.singleton_append]

/-- Offers keep a formula one that has been grown. -/
theorem Grown.foldl_offered (grown : f.Grown) (small : f.varCount ≤ 2 ^ 31)
    (clauses : List (List Int)) : (clauses.foldl offered f).Grown := by
  induction clauses generalizing f with
  | nil => exact grown
  | cons clause rest ih =>
    refine ih ?_ (by simpa using small)
    by_cases admitted : ∀ x ∈ clause, Admits f.varCount x
    · have fits : ∀ x ∈ clause, Fits f.varCount x := fun x member =>
        (fits_iff_admits small).mpr (admitted x member)
      rw [offered, if_pos admitted]
      exact grown.add (addClause_of_fits fits)
    · rwa [offered_of_refused admitted]

end OfferAll

/-- The number is the largest variable that lists of integers mention, or zero if they mention none. -/
def IsLargest (lists : List (List Int)) (largest : Nat) : Prop :=
  (∀ list ∈ lists, ∀ x ∈ list, x.natAbs ≤ largest) ∧
    (largest = 0 ∨ ∃ list ∈ lists, ∃ x ∈ list, x.natAbs = largest)

theorem isLargest_largestVar (lists : List (List Int)) : IsLargest lists (largestVar lists) := by
  have greatest : (0 :: lists.flatten.map Int.natAbs).max? = some (largestVar lists) := by
    rw [List.max?_cons', List.foldl_map]
    rfl
  obtain ⟨mentioned, above⟩ := List.max?_eq_some_iff.mp greatest
  constructor
  · intro list member x inside
    refine above _ (List.mem_cons_of_mem 0 (List.mem_map_of_mem ?_))
    exact List.mem_flatten.mpr ⟨list, member, inside⟩
  · rcases List.mem_cons.mp mentioned with zero | mentioned
    · exact .inl zero
    · obtain ⟨x, inside, same⟩ := List.mem_map.mp mentioned
      obtain ⟨list, member, inside⟩ := List.mem_flatten.mp inside
      exact .inr ⟨list, member, x, inside, same⟩

theorem upshot_eq_error_iff {answers : List (Option InputError)} {f : Formula} :
    (∃ reason, upshot answers f = .error reason) ↔ ∃ answer ∈ answers, answer ≠ none := by
  unfold upshot
  split
  · rename_i none
    simpa using List.findSome?_eq_none_iff.mp none
  · rename_i reason first
    obtain ⟨answer, member, rfl⟩ := List.exists_of_findSome?_eq_some first
    simpa using ⟨some reason, member, nofun⟩

/-- What becomes of a formula that clauses are offered to: each clause has the answer that it would have
alone, and the formula has the clauses accepted, with literals of its variables only. -/
structure Validated (vars : Nat) (clauses : List (List Int)) (answers : List (Option InputError))
    (f : Formula) : Prop where
  answers_eq : answers = clauses.map (answer vars)
  varCount_eq : f.varCount = vars
  accepted : f.toInts = clauses.filter fun clause => ∀ x ∈ clause, Admits vars x
  inRange : ∀ lits ∈ f.clauses.toList, ∀ l ∈ lits, l.var < vars

/-- Offering clauses to a new formula of up to 2 ^ 31 variables ends without a fault, and so does one
more offer after them. It succeeds exactly if the integers are not zero and within the variables; a
refusal complains about the first one that is not, and leaves the formula as it was. Making a formula
of lists of integers is offering them to a new formula over the variables up to the largest mentioned,
up to the first refusal, and there is one exactly if some integer is zero. -/
theorem offers_validated {vars : Nat} (small : vars ≤ 2 ^ 31) (clauses : List (List Int)) :
    (∃ answers f, offerAll ⟨vars, #[]⟩ clauses = .ok (answers, f) ∧ Validated vars clauses answers f ∧
      ∀ clause, ∃ f', f.offer clause = .ok (answer vars clause, f') ∧
        (answer vars clause = none ↔ ∀ x ∈ clause, x ≠ 0 ∧ x.natAbs ≤ vars) ∧
        ∀ reason, answer vars clause = some reason → f' = f ∧ Refuses vars clause reason) ∧
    ∀ lists, (∀ list ∈ lists, ∀ x ∈ list, x.natAbs ≤ 2 ^ 31) →
      ∃ largest answers f, IsLargest lists largest ∧
        offerAll ⟨largest, #[]⟩ lists = .ok (answers, f) ∧
        ofClauses lists = .ok (upshot answers f) ∧
        ((∃ reason, upshot answers f = .error reason) ↔ ∃ list ∈ lists, 0 ∈ list) := by
  constructor
  · have offers := offerAll_eq (f := ⟨vars, #[]⟩) small clauses
    refine ⟨_, _, offers, ⟨rfl, varCount_foldl_offered clauses, ?_, ?_⟩, fun clause => ?_⟩
    · simpa [toInts] using toInts_foldl_offered (f := ⟨vars, #[]⟩) clauses
    · have grown := (Grown.new vars).foldl_offered small clauses
      simpa using grown.inRange
    · generalize counted : clauses.foldl offered ⟨vars, #[]⟩ = f
      have vars_eq : f.varCount = vars := by rw [← counted, varCount_foldl_offered]
      subst vars_eq
      refine ⟨f.offered clause, offer_eq small clause, answer_eq_none_iff, fun reason refused => ?_⟩
      refine ⟨offered_of_refused ?_, answer_eq_some_iff.mp refused⟩
      rw [← answer_eq_none_iff, refused]
      exact Option.some_ne_none reason
  · intro lists moderate
    have largest := isLargest_largestVar lists
    have above := largest.1
    have least : largestVar lists ≤ 2 ^ 31 := by
      rcases largest.2 with zero | ⟨list, member, x, inside, same⟩
      · omega
      · exact same ▸ moderate list member x inside
    refine ⟨_, _, _, largest, offerAll_eq (f := ⟨largestVar lists, #[]⟩) least lists,
      addClauses_eq (f := ⟨largestVar lists, #[]⟩) least lists, ?_⟩
    have refused_iff : ∀ list ∈ lists, answer (largestVar lists) list ≠ none ↔ 0 ∈ list := by
      intro list member
      rw [ne_eq, answer_eq_none_iff, not_iff_comm]
      constructor
      · intro nonzero x inside
        exact ⟨ne_of_mem_of_not_mem inside nonzero, above list member x inside⟩
      · exact fun admitted zero => (admitted 0 zero).1 rfl
    rw [upshot_eq_error_iff]
    simp only [List.mem_map, exists_exists_and_eq_and]
    exact exists_congr fun list => and_congr_right (refused_iff list)

/-- Clauses with a zero amid them, with none, with a variable too many, and with a repetition. -/
def mixed : List (List Int) := [[1, -2], [1, 0, 5], [], [-3, 0], [2, 2]]

theorem offers_validated_mixed : (2 : Nat) ≤ 2 ^ 31 ∧
    (∃ f, offerAll ⟨2, #[]⟩ mixed =
        .ok ([none, some .zeroLiteral, none, some (.variableOutOfRange 3 2), none], f) ∧
      f.toInts = [[1, -2], [], [2, 2]]) ∧
    ∃ reason, ofClauses [[1, -3], [2, 0]] = .ok (.error reason) := by
  have small : (2 : Nat) ≤ 2 ^ 31 := by decide
  obtain ⟨⟨answers, f, offered, validated, -⟩, given⟩ := offers_validated small mixed
  have answered : answers = [none, some .zeroLiteral, none, some (.variableOutOfRange 3 2), none] :=
    validated.answers_eq.trans (by decide)
  have accepted : f.toInts = [[1, -2], [], [2, 2]] := validated.accepted.trans (by decide)
  obtain ⟨_, answers', f', -, -, made, fails⟩ := given [[1, -3], [2, 0]] (by decide)
  obtain ⟨reason, refused⟩ := fails.mpr ⟨[2, 0], by decide, by decide⟩
  exact ⟨small, ⟨f, answered ▸ offered, accepted⟩, reason, refused ▸ made⟩

end ClauseLearning.Formula
