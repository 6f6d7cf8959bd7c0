import ClauseLearning.Formula

/-! # Errors in DIMACS input

An error in the text of a formula names its line, counted from one. Input that cannot be read, or
whose bytes are no text, has no line to name.
-/

namespace ClauseLearning

inductive ReadFailure where
  | invalidText
  | system (reason : String) (code : Nat)
deriving DecidableEq, Repr

namespace ReadFailure

def notFound : ReadFailure := .system "No such file or directory" 2

def permissionDenied : ReadFailure := .system "Permission denied" 13

/-- A part of the path is taken for a directory but is none. -/
def notDirectory : ReadFailure := .system "Not a directory" 20

def isDirectory : ReadFailure := .system "Is a directory" 21

def message : ReadFailure → String
  | invalidText => "stream did not contain valid UTF-8"
  | system reason code => s!"{reason} (os error {code})"

end ReadFailure

/-- Why input is no formula. -/
inductive DimacsError where
  | unreadable (failure : ReadFailure)
  /-- Clause data, or the end of the input, came before the problem line. -/
  | missingHeader (line : Nat)
  /-- A problem line is malformed, or is the second one. -/
  | badHeader (line : Nat) (text : String)
  | badLiteral (line : Nat) (token : String)
  /-- The clause that ends on the line is refused. -/
  | refusedClause (line : Nat) (reason : InputError)
deriving DecidableEq, Repr

namespace DimacsError

/-- The line that the error names, counted from one. -/
def line? : DimacsError → Option Nat
  | unreadable _ => none
  | missingHeader line => some line
  | badHeader line _ => some line
  | badLiteral line _ => some line
  | refusedClause line _ => some line

def message : DimacsError → String
  | unreadable failure => failure.message
  | missingHeader line => s!"line {line}: expected `p cnf <vars> <clauses>` before clause data"
  | badHeader line text => s!"line {line}: malformed problem line `{text}`"
  | badLiteral line token => s!"line {line}: `{token}` is not a literal"
  | refusedClause line reason => s!"line {line}: {reason.message}"

/-- The texts of an error and of what caused it, the error first. -/
def causes (e : DimacsError) : List String :=
  match e with
  | refusedClause _ reason => [e.message, reason.message]
  | _ => [e.message]

end DimacsError

end ClauseLearning
