import ClauseLearning.Dimacs.Error
import ClauseLearning.Text.Blank
import ClauseLearning.Text.Numeral

/-! # Reading formulas in DIMACS form

A formula in DIMACS form is a text of lines. Blank lines and lines that start with `c` are skipped,
and a line that starts with `%` ends the input. The first line left is the problem line
`p cnf <vars> <clauses>`. The words of the lines after it are integers, and each zero closes a clause,
so a clause may span lines. A last clause without its zero is taken as closed at the end.

Reading goes line by line and stops at the first error. The number of clauses announced is compared
with the number found, but a difference is worth a warning only.
-/

namespace ClauseLearning.Dimacs

/-- What is odd about an input that is accepted nevertheless. -/
inductive Warning where
  | unterminatedClause
  | clauseCount (declared found : Nat)
deriving DecidableEq, Repr

def Warning.message : Warning → String
  | .unterminatedClause => "Last clause is missing its terminating 0"
  | .clauseCount declared found => s!"Header declares {declared} clauses, found {found}"

/-- The lines of a text or of bytes: the pieces that a line end closes, and what follows the last
one, if anything does. -/
def splitLines {α : Type} (isLineEnd : α → Bool) (input : List α) : List (List α) :=
  let pieces := input.splitOnP isLineEnd
  if pieces.getLast?.any List.isEmpty then pieces.dropLast else pieces

def textLines (text : List Char) : List (Except ReadFailure (List Char)) :=
  (splitLines (· == '\n') text).map .ok

/-- The text of a line of bytes, which has to be valid UTF-8. -/
def decodeLine (line : List UInt8) : Except ReadFailure (List Char) :=
  match ByteArray.utf8Decode? ⟨line.toArray⟩ with
  | some text => .ok text.toList
  | none => .error .invalidText

/-- The lines of an input of bytes, each decoded on its own. -/
def byteLines (bytes : List UInt8) : List (Except ReadFailure (List Char)) :=
  (splitLines (· == 10) bytes).map decodeLine

/-- What the lines of a formula have given so far. -/
structure Progress where
  /-- The formula with the clauses closed so far, once the problem line has come. -/
  formula : Option Formula := none
  declared : Nat := 0
  unclosed : List Int := []
deriving Repr, Inhabited

/-- What reading a line leads to. -/
inductive LineResult where
  | more (progress : Progress)
  /-- The line ends the input. -/
  | last (progress : Progress)
  | failed (e : DimacsError)

/-- The numbers of variables and clauses that a problem line announces. -/
def header? (line : List Char) : Option (Nat × Nat) :=
  match Text.words line with
  | [p, cnf, vars, clauses] =>
    if p = ['p'] ∧ cnf = ['c', 'n', 'f'] then do
      return (← Text.unsigned? vars, ← Text.unsigned? clauses)
    else none
  | _ => none

/-- Reads the words of a data line into the formula and the clause not closed yet. -/
def readWords (line : Nat) :
    List (List Char) → Formula → List Int → Checked (Except DimacsError (Formula × List Int))
  | [], f, unclosed => return .ok (f, unclosed)
  | word :: rest, f, unclosed => do
    match Text.signed? word with
    | none => return .error (.badLiteral line (String.ofList word))
    | some x =>
      if x = 0 then
        match ← f.addClause unclosed with
        | .error reason => return .error (.refusedClause line reason)
        | .ok f => readWords line rest f []
      else readWords line rest f (unclosed ++ [x])

def readLine (number : Nat) (line : List Char) (progress : Progress) : Checked LineResult := do
  let trimmed := Text.trim line
  match trimmed, progress.formula with
  | [], _ => return .more progress
  | 'c' :: _, _ => return .more progress
  | '%' :: _, _ => return .last progress
  | 'p' :: _, some _ => return .failed (.badHeader number (String.ofList trimmed))
  | 'p' :: _, none =>
    match header? trimmed with
    | none => return .failed (.badHeader number (String.ofList trimmed))
    | some (vars, declared) => return .more { progress with formula := some ⟨vars, #[]⟩, declared }
  | _, none => return .failed (.missingHeader number)
  | _, some f =>
    match ← readWords number (Text.words trimmed) f progress.unclosed with
    | .error e => return .failed e
    | .ok (f, unclosed) => return .more { progress with formula := some f, unclosed }

/-- Reads lines in turn, the first one having the number after the given one, up to an error or a
line that ends the input. Yields the number of the last line read, with what the lines gave. -/
def readLines :
    List (Except ReadFailure (List Char)) → Nat → Progress →
      Checked (Except DimacsError (Nat × Progress))
  | [], number, progress => return .ok (number, progress)
  | .error failure :: _, _, _ => return .error (.unreadable failure)
  | .ok line :: rest, number, progress => do
    match ← readLine (number + 1) line progress with
    | .failed e => return .error e
    | .last progress => return .ok (number + 1, progress)
    | .more progress => readLines rest (number + 1) progress

/-- The warning that a formula calls for if another number of clauses was announced. -/
def countWarnings (declared : Nat) (f : Formula) : List Warning :=
  if f.size = declared then [] else [.clauseCount declared f.size]

/-- Ends the input after the line with the given number: closes a last clause and compares the number
of clauses. -/
def finish (number : Nat) (progress : Progress) :
    Checked (Except DimacsError Formula × List Warning) := do
  match progress.formula with
  | none => return (.error (.missingHeader (number + 1)), [])
  | some f =>
    if progress.unclosed.isEmpty then return (.ok f, countWarnings progress.declared f)
    match ← f.addClause progress.unclosed with
    | .error reason => return (.error (.refusedClause number reason), [.unterminatedClause])
    | .ok f => return (.ok f, .unterminatedClause :: countWarnings progress.declared f)

/-- Reads the formula that lines give, or finds what is wrong with them, with warnings. -/
def read (lines : List (Except ReadFailure (List Char))) :
    Checked (Except DimacsError Formula × List Warning) := do
  match ← readLines lines 0 {} with
  | .error e => return (.error e, [])
  | .ok (number, progress) => finish number progress

def readText (text : String) : Checked (Except DimacsError Formula × List Warning) :=
  read (textLines text.toList)

def readBytes (bytes : List UInt8) : Checked (Except DimacsError Formula × List Warning) :=
  read (byteLines bytes)

end ClauseLearning.Dimacs
