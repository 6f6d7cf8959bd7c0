import ClauseLearning.Proofs.Input.Scan

/-! # How filling ends

Filling a formula is blocked by the first integer that does not fit, as soon as its clause is closed.
What the integer comes to is then the outcome, on the line where the clause is closed. Unless filling is
blocked, it goes on to the end of the data.
-/

namespace ClauseLearning.Dimacs

open Formula (Fits refusal)

/-- The end of the input closes a clause like a zero on the last line. -/
def ending : Except DimacsError Nat → List Placed
  | .ok last => [⟨last, 0⟩]
  | .error _ => []

/-- The integers of the data with the zero that the end of the input stands for. -/
def Scan.row (s : Scan) : List Placed := s.placed ++ ending s.stop

/-- The first integer that does not fit, and the line of the next zero. -/
def block? (vars : Nat) : List Placed → Option (Placed × Nat)
  | [] => none
  | p :: rest =>
    if p.value = 0 ∨ Fits vars p.value then block? vars rest
    else (rest.find? (·.value = 0)).map fun zero => (p, zero.line)

/-- The first integer that does not fit belongs to a clause that is closed on the line. -/
structure Blocks (vars : Nat) (row : List Placed) (p : Placed) (line : Nat) : Prop where
  nonzero : p.value ≠ 0
  misfit : ¬ Fits vars p.value
  split : ∃ front later after, row = front ++ p :: (later ++ ⟨line, 0⟩ :: after) ∧
    (∀ q ∈ front, q.value = 0 ∨ Fits vars q.value) ∧ ∀ q ∈ later, q.value ≠ 0

section Blocks
variable {vars line : Nat} {row begun : List Placed} {p q : Placed} {x : Int}

theorem block?_cons_of_fits (fits : q.value = 0 ∨ Fits vars q.value) :
    block? vars (q :: row) = block? vars row := if_pos fits

theorem block?_append_of_fits (fits : ∀ q ∈ begun, Fits vars q.value) :
    block? vars (begun ++ row) = block? vars row := by
  induction begun with
  | nil => rfl
  | cons q rest ih =>
    obtain ⟨here, others⟩ := List.forall_mem_cons.mp fits
    rw [List.cons_append, block?_cons_of_fits (.inr here), ih others]

/-- A zero closes the clause of the first integer before it that does not fit. -/
theorem exists_block?_eq_some (begunNonzero : ∀ q ∈ begun, q.value ≠ 0) (zero : q.value = 0)
    (row : List Placed) (first : Formula.misfit? vars (begun.map Placed.value) = some x) :
    ∃ p, p.value = x ∧ block? vars (begun ++ q :: row) = some (p, q.line) := by
  induction begun with
  | nil => cases first
  | cons p rest ih =>
    obtain ⟨here, others⟩ := List.forall_mem_cons.mp begunNonzero
    by_cases fits : Fits vars p.value
    · have later : Formula.misfit? vars (rest.map Placed.value) = some x := by
        simpa [Formula.misfit?, fits] using first
      obtain ⟨p', same, blocked⟩ := ih others later
      exact ⟨p', same, (block?_cons_of_fits (.inr fits)).trans blocked⟩
    · have same : p.value = x := by simpa [Formula.misfit?, fits] using first
      have closes : (rest ++ q :: row).find? (·.value = 0) = some q :=
        List.find?_eq_some_iff_append.mpr ⟨by simpa using zero, rest, row, rfl, by simpa using others⟩
      refine ⟨p, same, ?_⟩
      rw [List.cons_append, block?, if_neg (not_or.mpr ⟨here, fits⟩), closes]
      rfl

/-- A clause that is not closed does not block. -/
theorem block?_eq_none_of_nonzero (nonzero : ∀ q ∈ row, q.value ≠ 0) : block? vars row = none := by
  induction row with
  | nil => rfl
  | cons q rest ih =>
    have others := (List.forall_mem_cons.mp nonzero).2
    have unclosed : rest.find? (·.value = 0) = none :=
      List.find?_eq_none.mpr fun p member => by simpa using others p member
    rw [block?, ih others, unclosed]
    split <;> rfl

theorem block?_eq_some_iff : block? vars row = some (p, line) ↔ Blocks vars row p line := by
  induction row with
  | nil =>
    refine ⟨nofun, fun ⟨_, _, front, later, after, same, _⟩ => ?_⟩
    cases front <;> cases same
  | cons q rest ih =>
    by_cases fits : q.value = 0 ∨ Fits vars q.value
    · rw [block?_cons_of_fits fits, ih]
      constructor
      · rintro ⟨nonzero, misfit, front, later, after, rfl, before, between⟩
        exact ⟨nonzero, misfit, q :: front, later, after, rfl,
          List.forall_mem_cons.mpr ⟨fits, before⟩, between⟩
      · rintro ⟨nonzero, misfit, front, later, after, same, before, between⟩
        cases front with
        | nil =>
          cases same
          exact absurd fits (not_or.mpr ⟨nonzero, misfit⟩)
        | cons _ front =>
          cases same
          exact ⟨nonzero, misfit, front, later, after, rfl, (List.forall_mem_cons.mp before).2, between⟩
    · rw [block?, if_neg fits]
      obtain ⟨nonzero, misfit⟩ := not_or.mp fits
      constructor
      · intro blocked
        obtain ⟨zero, closes, same⟩ := Option.map_eq_some_iff.mp blocked
        cases same
        obtain ⟨closing, later, after, rfl, between⟩ := List.find?_eq_some_iff_append.mp closes
        obtain ⟨line, _⟩ := zero
        obtain rfl : _ = (0 : Int) := by simpa using closing
        exact ⟨nonzero, misfit, [], later, after, rfl, by simp, by simpa using between⟩
      · rintro ⟨-, -, front, later, after, same, before, between⟩
        cases front with
        | nil =>
          cases same
          have closes : (later ++ ⟨line, 0⟩ :: after).find? (·.value = 0) = some ⟨line, 0⟩ :=
            List.find?_eq_some_iff_append.mpr ⟨by simp, later, after, rfl, by simpa using between⟩
          rw [closes]
          rfl
        | cons _ front =>
          cases same
          exact absurd (before q List.mem_cons_self) fits

end Blocks

/-- How filling ends: as the integer decides that blocks it, or else where the data ends, with the error
there or with a formula. -/
inductive Fills (vars : Nat) : Option (Placed × Nat) → Except DimacsError Nat →
    Checked (Except DimacsError Formula × List Warning) → Prop
  | blocked (p : Placed) (line : Nat) (stop : Except DimacsError Nat) (warnings : List Warning) :
      Fills vars (some (p, line)) stop
        ((refusal vars p.value).map fun reason => (.error (.refusedClause line reason), warnings))
  | stopped (e : DimacsError) : Fills vars none (.error e) (.ok (.error e, []))
  | filled (last : Nat) (f : Formula) (warnings : List Warning) :
      Fills vars none (.ok last) (.ok (.ok f, warnings))

namespace Fills
variable {vars line : Nat} {block : Option (Placed × Nat)} {stop : Except DimacsError Nat}
  {outcome : Checked (Except DimacsError Formula × List Warning)}

theorem eq_error_iff {fault : Fault} (fills : Fills vars block stop outcome) :
    outcome = .error fault ↔ ∃ p line, block = some (p, line) ∧ refusal vars p.value = .error fault := by
  cases fills with
  | blocked p line stop warnings => cases refused : refusal vars p.value <;> simp [Except.map, refused]
  | stopped e => simp
  | filled last f warnings => simp

theorem refuses_iff {reason : InputError} (fills : Fills vars block stop outcome)
    (unrefused : ∀ e, stop = .error e → e ≠ .refusedClause line reason) :
    (∃ warnings, outcome = .ok (.error (.refusedClause line reason), warnings)) ↔
      ∃ p, block = some (p, line) ∧ refusal vars p.value = .ok reason := by
  cases fills with
  | blocked p line stop warnings =>
    cases refused : refusal vars p.value <;> simp [Except.map, refused]
  | stopped e => simpa using unrefused e rfl
  | filled last f warnings => simp

end Fills

section Fill
variable {f : Formula} {declared last : Nat} {stop : Except DimacsError Nat} {p q : Placed}
  {placed begun rest : List Placed} {unclosed : List Int} {x : Int}

theorem fill_of_nonzero (nonzero : q.value ≠ 0) : fill stop declared (q :: rest) f unclosed =
    fill stop declared rest f (unclosed ++ [q.value]) := if_neg nonzero

theorem fill_of_fits (zero : q.value = 0) (fits : ∀ x ∈ unclosed, Fits f.varCount x) :
    fill stop declared (q :: rest) f unclosed = fill stop declared rest
      { f with clauses := f.clauses.push (unclosed.map Lit.ofNonzero) } [] := by
  rw [fill, if_pos zero, Formula.addClause_of_fits fits]
  rfl

theorem fill_of_misfit (zero : q.value = 0) (first : Formula.misfit? f.varCount unclosed = some x) :
    fill stop declared (q :: rest) f unclosed =
      (refusal f.varCount x).map fun reason => (.error (.refusedClause q.line reason), []) := by
  rw [fill, if_pos zero, Formula.addClause_of_misfit first]
  cases refusal f.varCount x <;> rfl

theorem finish_of_misfit (first : Formula.misfit? f.varCount unclosed = some x) :
    finish last { formula := some f, declared, unclosed } = (refusal f.varCount x).map fun reason =>
      (.error (.refusedClause last reason), [.unterminatedClause]) := by
  have begun : unclosed.isEmpty = false := by
    cases unclosed with
    | nil => cases first
    | cons y rest => rfl
  simp only [finish, begun, Formula.addClause_of_misfit first]
  cases refusal f.varCount x <;> rfl

theorem finish_fills (nonzero : ∀ q ∈ begun, q.value ≠ 0) :
    Fills f.varCount (block? f.varCount (begun ++ [⟨last, 0⟩])) (.ok last)
      (finish last { formula := some f, declared, unclosed := begun.map Placed.value }) := by
  cases first : Formula.misfit? f.varCount (begun.map Placed.value) with
  | none =>
    have fits := Formula.misfit?_eq_none_iff.mp first
    rw [block?_append_of_fits fun q member => fits _ (List.mem_map_of_mem member),
      block?_cons_of_fits (.inl rfl)]
    simp only [finish, Formula.addClause_of_fits fits, ok_bind]
    split
    · exact .filled _ _ _
    · exact .filled _ _ _
  | some x =>
    obtain ⟨p, rfl, blocked⟩ := exists_block?_eq_some (q := ⟨last, 0⟩) nonzero rfl [] first
    rw [finish_of_misfit first, blocked]
    exact .blocked _ _ _ _

/-- Filling ends as the integers decide, those of a clause begun before coming first. -/
theorem fill_fills (nonzero : ∀ q ∈ begun, q.value ≠ 0) :
    Fills f.varCount (block? f.varCount (begun ++ (placed ++ ending stop))) stop
      (fill stop declared placed f (begun.map Placed.value)) := by
  induction placed generalizing f begun with
  | nil =>
    cases stop with
    | ok last => exact finish_fills nonzero
    | error e =>
      rw [ending, List.append_nil, List.append_nil, block?_eq_none_of_nonzero nonzero]
      exact .stopped e
  | cons q rest ih =>
    by_cases zero : q.value = 0
    · cases first : Formula.misfit? f.varCount (begun.map Placed.value) with
      | none =>
        have fits := Formula.misfit?_eq_none_iff.mp first
        rw [fill_of_fits zero fits, block?_append_of_fits fun q member => fits _ (List.mem_map_of_mem member),
          List.cons_append, block?_cons_of_fits (.inl zero)]
        exact @ih { f with clauses := f.clauses.push _ } [] (List.forall_mem_nil _)
      | some x =>
        obtain ⟨p, rfl, blocked⟩ := exists_block?_eq_some nonzero zero (rest ++ ending stop) first
        rw [fill_of_misfit zero first, List.cons_append, blocked]
        exact .blocked _ _ _ _
    · have shifted : begun ++ (q :: rest ++ ending stop) = (begun ++ [q]) ++ (rest ++ ending stop) := by
        simp
      have begunWith : begun.map Placed.value ++ [q.value] = (begun ++ [q]).map Placed.value := by simp
      rw [fill_of_nonzero zero, shifted, begunWith]
      refine ih fun p member => ?_
      rcases List.mem_append.mp member with member | member
      · exact nonzero p member
      · exact List.mem_singleton.mp member ▸ zero

end Fill

/-! ## How reading ends -/

section Reading
variable {number line : Nat} {lines : List (Except ReadFailure (List Char))} {c : Contents}
  {reason : InputError} {fault : Fault}

theorem stop_scanWords_ne {later : Scan} (unrefused : later.stop ≠ .error (.refusedClause line reason))
    (words : List (List Char)) :
    (scanWords number later words).stop ≠ .error (.refusedClause line reason) := by
  induction words with
  | nil => exact unrefused
  | cons word rest ih =>
    rw [scanWords]
    split
    · rintro ⟨⟩
    · exact ih

/-- Scanning refuses no clause. -/
theorem stop_scanData_ne (lines : List (Except ReadFailure (List Char))) :
    (scanData lines number).stop ≠ .error (.refusedClause line reason) := by
  induction lines using lines_induction generalizing number with
  | nil => exact nofun
  | unreadable failure rest => exact nofun
  | last chars rest ends =>
    rw [scanData_of_ends ends]
    exact nofun
  | idle chars rest more idle ih =>
    rw [scanData_of_idle more idle]
    exact ih
  | content chars rest more content ih =>
    by_cases problem : (Text.trim chars).head? = some 'p'
    · rw [scanData_of_problem more content problem]
      exact nofun
    · rw [scanData_of_words more content problem]
      exact stop_scanWords_ne ih _

theorem scan_ne (lines : List (Except ReadFailure (List Char))) :
    scan lines number ≠ .error (.refusedClause line reason) := by
  induction lines using lines_induction generalizing number with
  | nil => exact nofun
  | unreadable failure rest => exact nofun
  | last chars rest ends =>
    rw [scan_of_ends ends]
    exact nofun
  | idle chars rest more idle ih =>
    rw [scan_of_idle more idle]
    exact ih
  | content chars rest more content ih =>
    by_cases problem : (Text.trim chars).head? = some 'p'
    · rw [scan_of_problem more content problem]
      split <;> exact nofun
    · rw [scan_of_early_data more content problem]
      exact nofun

/-- Once the problem line has come, the lines after it are scanned as data. -/
theorem exists_scanData (scanned : scan lines number = .ok c) :
    ∃ front rest, lines = front ++ rest ∧ c.toScan = scanData rest (number + front.length) := by
  induction lines using lines_induction generalizing number with
  | nil => cases scanned
  | unreadable failure rest => cases scanned
  | last chars rest ends =>
    rw [scan_of_ends ends] at scanned
    cases scanned
  | idle chars rest more idle ih =>
    rw [scan_of_idle more idle] at scanned
    obtain ⟨front, rest', rfl, same⟩ := ih scanned
    exact ⟨.ok chars :: front, rest', rfl, by rw [same, List.length_cons, Nat.add_right_comm, Nat.add_assoc]⟩
  | content chars rest more content ih =>
    by_cases problem : (Text.trim chars).head? = some 'p'
    · rw [scan_of_problem more content problem] at scanned
      split at scanned
      · cases scanned
      · cases scanned
        exact ⟨[.ok chars], rest, rfl, rfl⟩
    · rw [scan_of_early_data more content problem] at scanned
      cases scanned

/-- Reading what has been scanned is filling a formula that has no clauses yet. -/
theorem read_fills (scanned : scan lines 0 = .ok c) :
    Fills c.vars (block? c.vars c.row) c.stop (read lines) := by
  rw [read_eq, scanned]
  exact fill_fills (f := ⟨c.vars, #[]⟩) (List.forall_mem_nil _)

/-- Reading faults exactly where it is blocked by an integer whose variable has no literals. -/
theorem read_eq_error_iff : read lines = .error fault ↔ fault = .literalOverflow ∧
    ∃ c, scan lines 0 = .ok c ∧ ∃ p line, Blocks c.vars c.row p line ∧
      Lit.Codeless p.value ∧ p.value.natAbs ≤ c.vars := by
  cases scanned : scan lines 0 with
  | error e =>
    rw [read_eq, scanned]
    simp
  | ok c =>
    rw [(read_fills scanned).eq_error_iff]
    simp only [block?_eq_some_iff, Formula.refusal_eq_error_iff, Except.ok.injEq, exists_eq_left']
    constructor
    · rintro ⟨p, line, blocks, overflows, overflow⟩
      exact ⟨overflows, p, line, blocks, overflow⟩
    · rintro ⟨overflows, p, line, blocks, overflow⟩
      exact ⟨p, line, blocks, overflows, overflow⟩

/-- A clause is refused exactly where reading is blocked by an integer that is refused. -/
theorem read_refuses_iff :
    (∃ warnings, read lines = .ok (.error (.refusedClause line reason), warnings)) ↔
      ∃ c, scan lines 0 = .ok c ∧ ∃ p, Blocks c.vars c.row p line ∧
        refusal c.vars p.value = .ok reason := by
  cases scanned : scan lines 0 with
  | error e =>
    have unrefused : scan lines 0 ≠ .error (.refusedClause line reason) := scan_ne lines
    rw [read_eq, scanned]
    simpa [scanned] using unrefused
  | ok c =>
    obtain ⟨front, rest, -, data⟩ := exists_scanData scanned
    have unrefused (e : DimacsError) (wrong : c.stop = .error e) : e ≠ .refusedClause line reason := by
      rintro rfl
      rw [data] at wrong
      exact stop_scanData_ne rest wrong
    rw [(read_fills scanned).refuses_iff unrefused]
    simp only [block?_eq_some_iff, Except.ok.injEq, exists_eq_left']

end Reading

end ClauseLearning.Dimacs
