import ClauseLearning.Lit

/-! # Formulas in clausal form

A formula is a list of clauses over a declared number of variables. Clauses are given as lists of
signed integers; one with a zero, or with a variable beyond the declared number, is refused, and the
first integer at fault is reported. What is accepted is kept as it was given: repeated literals,
tautologies and empty clauses stay.
-/

namespace ClauseLearning

/-- Why a clause is refused. -/
inductive InputError where
  | zeroLiteral
  /-- The variable, counted from one, exceeds the number of variables. -/
  | variableOutOfRange (var vars : Nat)
deriving DecidableEq, Repr

def InputError.message : InputError → String
  | .zeroLiteral => "literal 0 inside a clause"
  | .variableOutOfRange var vars => s!"variable {var} exceeds the declared {vars} variables"

/-- A list of clauses over the variables below a number. -/
structure Formula where
  varCount : Nat
  clauses : Array (List Lit) := #[]
deriving DecidableEq, Repr, Inhabited

namespace Formula

def size (f : Formula) : Nat := f.clauses.size

def isEmpty (f : Formula) : Bool := f.clauses.isEmpty

def hasEmptyClause (f : Formula) : Bool := f.clauses.toList.any List.isEmpty

/-- The literal over a number of variables that a signed integer stands for. -/
def readLit (vars : Nat) (x : Int) : Checked (Except InputError Lit) := do
  if x = 0 then return .error .zeroLiteral
  if vars < x.natAbs then return .error (.variableOutOfRange x.natAbs vars)
  match ← Lit.ofInt? x with
  | some l => return .ok l
  | none => return .error (.variableOutOfRange x.natAbs vars)

/-- The literals over a number of variables that signed integers stand for, or what is wrong with the
first one that stands for none. -/
def readLits (vars : Nat) : List Int → Checked (Except InputError (List Lit))
  | [] => return .ok []
  | x :: rest => do
    match ← readLit vars x with
    | .error e => return .error e
    | .ok l =>
      match ← readLits vars rest with
      | .error e => return .error e
      | .ok lits => return .ok (l :: lits)

/-- Offers a clause of signed integers to the formula. Yields the reason for a refusal, if there is one,
with the formula as it is afterwards. -/
def offer (f : Formula) (clause : List Int) : Checked (Option InputError × Formula) := do
  match ← readLits f.varCount clause with
  | .error reason => return (some reason, f)
  | .ok lits => return (none, { f with clauses := f.clauses.push lits })

def addClause (f : Formula) (clause : List Int) : Checked (Except InputError Formula) := do
  match ← f.offer clause with
  | (some reason, _) => return .error reason
  | (none, f) => return .ok f

/-- The formula with clauses added in order, up to the first one refused. -/
def addClauses (f : Formula) : List (List Int) → Checked (Except InputError Formula)
  | [] => return .ok f
  | clause :: rest => do
    match ← f.addClause clause with
    | .error e => return .error e
    | .ok f => f.addClauses rest

/-- The largest variable, counted from one, that clauses of signed integers mention. -/
def largestVar (clauses : List (List Int)) : Nat :=
  clauses.flatten.foldl (fun largest x => max largest x.natAbs) 0

/-- The formula of clauses of signed integers over the variables up to the largest mentioned. -/
def ofClauses (clauses : List (List Int)) : Checked (Except InputError Formula) :=
  Formula.addClauses ⟨largestVar clauses, #[]⟩ clauses

def toInts (f : Formula) : List (List Int) := f.clauses.toList.map fun clause => clause.map Lit.toInt

/-- The formula in text: a line of sizes, then a line for each clause. -/
def text (f : Formula) : String :=
  let clauseText := fun clause : List Lit => " ".intercalate ("Clause:" :: clause.map Lit.text) ++ "\n"
  s!"n_vars: {f.varCount}\tn_clauses: {f.size}\n" ++ String.join (f.clauses.toList.map clauseText)

end Formula

end ClauseLearning
