/-! # Truth values of a partial assignment

Under a partial assignment a literal holds, fails or is undetermined. The three values are coded 0,
1 and 2, so that the sign of a literal, as a code, turns the value of its variable into its own by
exclusive or. An undetermined variable has undetermined literals.
-/

namespace ClauseLearning

/-- The value of a variable or literal under a partial assignment. -/
inductive TruthValue where
  | holds
  | fails
  | unknown
deriving DecidableEq, Repr, Inhabited

namespace TruthValue

def code : TruthValue → Nat
  | holds => 0
  | fails => 1
  | unknown => 2

/-- The truth value with a code. Every code from 2 on stands for the undetermined value. -/
def ofCode : Nat → TruthValue
  | 0 => holds
  | 1 => fails
  | _ => unknown

def ofBool : Bool → TruthValue
  | true => holds
  | false => fails

/-- The value that a variable takes when its literal of the given sign is made true. -/
def ofSign (negative : Bool) : TruthValue := ofCode negative.toNat

/-- The truth value whose code is the exclusive or of two codes. -/
def xor (a b : TruthValue) : TruthValue := ofCode (a.code ^^^ b.code)

@[simp] theorem ofCode_code (a : TruthValue) : ofCode a.code = a := by
  cases a <;> rfl

@[simp] theorem unknown_xor_ofSign (negative : Bool) : unknown.xor (ofSign negative) = unknown := by
  cases negative <;> rfl

@[simp] theorem ofBool_xor_ofSign (value negative : Bool) :
    (ofBool value).xor (ofSign negative) = ofBool (value != negative) := by
  cases value <;> cases negative <;> rfl

end TruthValue

end ClauseLearning
