import ClauseLearning.Lit

/-! # Models

A model gives every variable of a formula a value. In text it is the line of the literals it makes
true, one for each variable in order, closed by zero.
-/

namespace ClauseLearning

/-- A value for every variable. -/
structure Model where
  values : Array Bool
deriving DecidableEq, Repr, Inhabited

namespace Model

def varCount (m : Model) : Nat := m.values.size

def value (m : Model) (var : Nat) : Checked Bool := fetch m.values var

/-- The value of a variable counted from one, if the model has it. -/
def valueOfId? (m : Model) (id : Nat) : Option Bool :=
  match id with
  | 0 => none
  | var + 1 => m.values[var]?

def litValue (m : Model) (l : Lit) : Checked Bool := do return (← m.value l.var) != l.negative

/-- Whether the model makes one of the literals true. Those after the first true one do not
matter. -/
def satisfies (m : Model) : List Lit → Checked Bool
  | [] => return false
  | l :: rest => do if ← m.litValue l then return true else m.satisfies rest

/-- The true literals of the variables listed, as signed integers. -/
def trueLits (m : Model) : List Nat → Checked (List Int)
  | [] => return []
  | var :: rest => do
    let l ← Lit.ofVar var !(← m.value var)
    return l.toInt :: (← m.trueLits rest)

/-- Literals are listed for the variables below this number only. -/
def varLimit : Nat := UInt32.size

/-- The true literal of each variable in order, as a signed integer. The number of variables counts
modulo `varLimit`. -/
def toInts (m : Model) : Checked (List Int) := m.trueLits (List.range (m.varCount % varLimit))

/-- The line of a model: `v`, the true literals, and zero. -/
def text (m : Model) : Checked String := do
  return " ".intercalate ("v" :: (← m.toInts).map toString ++ ["0"])

end Model

end ClauseLearning
