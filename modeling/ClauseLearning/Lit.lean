import ClauseLearning.Fault

/-! # Literals

A literal is a variable with a sign. Variables are counted from zero; in text, and as signed
integers, they are counted from one, and a minus marks the negative literal. A literal also has a
32-bit code, twice its variable plus one if it is negative, which orders literals and indexes tables
over them. A variable of 2 ^ 31 or more has no literals, since their code would not fit.
-/

namespace ClauseLearning

/-- A variable or its negation. -/
structure Lit where
  /-- The variable of the literal, counted from zero. -/
  var : Nat
  negative : Bool
deriving DecidableEq, Repr, Inhabited

namespace Lit

def code (l : Lit) : Nat := 2 * l.var + l.negative.toNat

/-- The codes of literals are the numbers below this one. -/
def codeLimit : Nat := UInt32.size

/-- The literal of a variable with a sign, if its code fits. -/
def ofVar (var : Nat) (negative : Bool) : Checked Lit :=
  if 2 * var + negative.toNat < codeLimit then .ok ⟨var, negative⟩ else .error .literalOverflow

def negate (l : Lit) : Lit := { l with negative := !l.negative }

def isComplementOf (l other : Lit) : Bool := l.negate == other

/-- The signed integer that stands for the literal, counting variables from one. -/
def toInt (l : Lit) : Int :=
  if l.negative then -((l.var : Int) + 1) else (l.var : Int) + 1

/-- The largest variable, counted from zero, that a signed integer may name. -/
def varLimit : Nat := UInt32.size

/-- The literal that a signed integer stands for. Zero stands for none, and neither does an integer
whose variable needs more than 32 bits. -/
def ofInt? (x : Int) : Checked (Option Lit) :=
  if x = 0 then .ok none
  else if x.natAbs - 1 < varLimit then some <$> ofVar (x.natAbs - 1) (x < 0)
  else .ok none

def text (l : Lit) : String := toString l.toInt

@[simp] theorem negate_var (l : Lit) : l.negate.var = l.var := rfl

@[simp] theorem negate_negative (l : Lit) : l.negate.negative = !l.negative := rfl

@[simp] theorem negate_negate (l : Lit) : l.negate.negate = l := by
  cases l
  simp [negate]

/-- Different literals have different codes. -/
theorem code_injective {l other : Lit} (same : l.code = other.code) : l = other := by
  obtain ⟨var, sign⟩ := l
  obtain ⟨var', sign'⟩ := other
  have sameVar : var = var' := by
    cases sign <;> cases sign' <;> simp only [code, Bool.toNat_true, Bool.toNat_false] at same <;>
      omega
  subst sameVar
  cases sign <;> cases sign' <;> simp [code] at same ⊢

end Lit

/-- How many literals a number of variables has. -/
def literalCount (vars : Nat) : Nat := vars * 2

/-- A clause in text: its literals between round brackets, separated by bars. -/
def disjunctionText (lits : List Lit) : String :=
  "(" ++ " | ".intercalate (lits.map Lit.text) ++ ")"

end ClauseLearning
