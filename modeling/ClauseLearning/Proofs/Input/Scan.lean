import ClauseLearning.Proofs.Input.Reader

/-! # Scanning lines and filling a formula

Reading comes in two parts. Scanning finds the integers of the data with the numbers of their lines,
up to the end of the input or to something that is wrong, and cannot fault. Filling adds the clauses
that the zeros close to a formula, in turn, wherever the lines break. The end of the input closes the
last clause like a zero on the last line.
-/

namespace ClauseLearning.Dimacs

/-- An integer with the number of its line. -/
structure Placed where
  line : Nat
  value : Int
deriving DecidableEq, Repr

/-- What lines of data hold: the integers in order, and where they end, which is with an error or on the
last line. -/
structure Scan where
  placed : List Placed
  stop : Except DimacsError Nat
deriving DecidableEq

/-- What a whole input holds: the numbers that the problem line announces, and the data. -/
structure Contents extends Scan where
  vars : Nat
  declared : Nat
deriving DecidableEq

/-- The words of a line of data, with what comes after the line. -/
def scanWords (number : Nat) (later : Scan) : List (List Char) → Scan
  | [] => later
  | word :: rest =>
    match Text.signed? word with
    | none => ⟨[], .error (.badLiteral number (String.ofList word))⟩
    | some x =>
      let scan := scanWords number later rest
      { scan with placed := ⟨number, x⟩ :: scan.placed }

/-- Scans lines behind the problem line, the first one having the number after the given one. -/
def scanData : List (Except ReadFailure (List Char)) → Nat → Scan
  | [], number => ⟨[], .ok number⟩
  | .error failure :: _, _ => ⟨[], .error (.unreadable failure)⟩
  | .ok line :: rest, number =>
    let trimmed := Text.trim line
    if endsInput trimmed then ⟨[], .ok (number + 1)⟩
    else if hasContent trimmed = false then scanData rest (number + 1)
    else if trimmed.head? = some 'p' then
      ⟨[], .error (.badHeader (number + 1) (String.ofList trimmed))⟩
    else scanWords (number + 1) (scanData rest (number + 1)) (Text.words trimmed)

/-- Scans lines up to the problem line and from there on. -/
def scan : List (Except ReadFailure (List Char)) → Nat → Except DimacsError Contents
  | [], number => .error (.missingHeader (number + 1))
  | .error failure :: _, _ => .error (.unreadable failure)
  | .ok line :: rest, number =>
    let trimmed := Text.trim line
    if endsInput trimmed then .error (.missingHeader (number + 2))
    else if hasContent trimmed = false then scan rest (number + 1)
    else if trimmed.head? = some 'p' then
      match header? trimmed with
      | none => .error (.badHeader (number + 1) (String.ofList trimmed))
      | some (vars, declared) => .ok { scanData rest (number + 1) with vars, declared }
    else .error (.missingHeader (number + 1))

/-- Adds clauses to a formula as the zeros close them. -/
def fill (stop : Except DimacsError Nat) (declared : Nat) :
    List Placed → Formula → List Int → Checked (Except DimacsError Formula × List Warning)
  | [], f, unclosed =>
    match stop with
    | .error e => return (.error e, [])
    | .ok number => finish number { formula := some f, declared, unclosed }
  | p :: rest, f, unclosed =>
    if p.value = 0 then do
      match ← f.addClause unclosed with
      | .error reason => return (.error (.refusedClause p.line reason), [])
      | .ok f => fill stop declared rest f []
    else fill stop declared rest f (unclosed ++ [p.value])

/-! ## A line, by its kind -/

section Kinds
variable {line : List Char} {rest : List (Except ReadFailure (List Char))} {number : Nat}

theorem scanData_of_ends (ends : endsInput (Text.trim line)) :
    scanData (.ok line :: rest) number = ⟨[], .ok (number + 1)⟩ := if_pos ends

theorem scanData_of_idle (more : endsInput (Text.trim line) = false)
    (idle : hasContent (Text.trim line) = false) :
    scanData (.ok line :: rest) number = scanData rest (number + 1) := by
  simp [scanData, more, idle]

theorem scanData_of_problem (more : endsInput (Text.trim line) = false)
    (content : hasContent (Text.trim line)) (problem : (Text.trim line).head? = some 'p') :
    scanData (.ok line :: rest) number =
      ⟨[], .error (.badHeader (number + 1) (String.ofList (Text.trim line)))⟩ := by
  simp [scanData, more, content, problem]

theorem scanData_of_words (more : endsInput (Text.trim line) = false)
    (content : hasContent (Text.trim line)) (data : (Text.trim line).head? ≠ some 'p') :
    scanData (.ok line :: rest) number =
      scanWords (number + 1) (scanData rest (number + 1)) (Text.words (Text.trim line)) := by
  simp [scanData, more, content, data]

theorem scan_of_ends (ends : endsInput (Text.trim line)) :
    scan (.ok line :: rest) number = .error (.missingHeader (number + 2)) := if_pos ends

theorem scan_of_idle (more : endsInput (Text.trim line) = false)
    (idle : hasContent (Text.trim line) = false) :
    scan (.ok line :: rest) number = scan rest (number + 1) := by
  simp [scan, more, idle]

theorem scan_of_problem (more : endsInput (Text.trim line) = false)
    (content : hasContent (Text.trim line)) (problem : (Text.trim line).head? = some 'p') :
    scan (.ok line :: rest) number =
      match header? (Text.trim line) with
      | none => .error (.badHeader (number + 1) (String.ofList (Text.trim line)))
      | some (vars, declared) => .ok { scanData rest (number + 1) with vars, declared } := by
  simp [scan, more, content, problem]

theorem scan_of_early_data (more : endsInput (Text.trim line) = false)
    (content : hasContent (Text.trim line)) (data : (Text.trim line).head? ≠ some 'p') :
    scan (.ok line :: rest) number = .error (.missingHeader (number + 1)) := by
  simp [scan, more, content, data]

end Kinds

/-! ## Reading is filling with what scanning finds -/

section Filling
variable {f : Formula} {unclosed : List Int} {number declared : Nat}

/-- Reading the words of a line and going on is filling with what scanning the words finds. -/
theorem readWords_bind_fill (later : Scan) (words : List (List Char)) :
    (do match ← readWords number words f unclosed with
        | .error e => return (.error e, [])
        | .ok (f', unclosed') => fill later.stop declared later.placed f' unclosed') =
      fill (scanWords number later words).stop declared (scanWords number later words).placed f
        unclosed := by
  induction words generalizing f unclosed with
  | nil => rfl
  | cons word rest ih =>
    rw [readWords, scanWords]
    cases Text.signed? word with
    | none => rfl
    | some x =>
      by_cases zero : x = 0
      · simp only [zero, if_true, fill, bind_assoc]
        refine bind_congr fun outcome => ?_
        cases outcome with
        | error reason => rfl
        | ok f' => exact ih
      · simp only [zero, if_false, fill]
        exact ih

theorem readOn_eq_fill (lines : List (Except ReadFailure (List Char))) :
    readOn lines number { formula := some f, declared, unclosed } =
      fill (scanData lines number).stop declared (scanData lines number).placed f unclosed := by
  induction lines using lines_induction generalizing f unclosed number with
  | nil => rfl
  | unreadable failure rest => rfl
  | last line rest ends =>
    rw [readOn_of_ends ends, scanData_of_ends ends]
    rfl
  | idle line rest more idle ih => rw [readOn_of_idle idle, ih, scanData_of_idle more idle]
  | content line rest more content ih =>
    by_cases problem : (Text.trim line).head? = some 'p'
    · rw [readOn_cons, readLine_of_second_problem rfl problem, scanData_of_problem more content problem]
      rfl
    · rw [readOn_cons, readLine_of_data rfl more content problem, bind_assoc,
        scanData_of_words more content problem, ← readWords_bind_fill]
      refine bind_congr fun outcome => ?_
      cases outcome with
      | error e => rfl
      | ok result => exact ih

theorem readOn_eq (lines : List (Except ReadFailure (List Char))) :
    readOn lines number {} =
      match scan lines number with
      | .error e => .ok (.error e, [])
      | .ok c => fill c.stop c.declared c.placed ⟨c.vars, #[]⟩ [] := by
  induction lines using lines_induction generalizing number with
  | nil => rfl
  | unreadable failure rest => rfl
  | last line rest ends =>
    rw [readOn_of_ends ends, scan_of_ends ends]
    rfl
  | idle line rest more idle ih => rw [readOn_of_idle idle, ih, scan_of_idle more idle]
  | content line rest more content ih =>
    by_cases problem : (Text.trim line).head? = some 'p'
    · rw [readOn_cons, readLine_of_problem rfl problem, scan_of_problem more content problem]
      cases header? (Text.trim line) with
      | none => rfl
      | some announced => exact readOn_eq_fill rest
    · rw [readOn_cons, readLine_of_early_data rfl more content problem,
        scan_of_early_data more content problem]
      rfl

/-- Reading lines is filling a formula without clauses with what scanning the lines finds. -/
theorem read_eq (lines : List (Except ReadFailure (List Char))) :
    read lines =
      match scan lines 0 with
      | .error e => .ok (.error e, [])
      | .ok c => fill c.stop c.declared c.placed ⟨c.vars, #[]⟩ [] :=
  readOn_eq lines

end Filling

end ClauseLearning.Dimacs
