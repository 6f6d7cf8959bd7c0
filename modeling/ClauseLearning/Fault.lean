/-! # Faults

A computation of this library stops with a `Fault` when one of its preconditions fails: a variable
is put on the trail twice, a table is read outside its bounds, a number does not fit its code, a
table does not fit the address space.
Faults are never the answer to bad input and never a verdict; input and engine have error types of
their own. Keeping each precondition as a checked case lets one state, for every operation, exactly
when it is safe to call.
-/

namespace ClauseLearning

/-- The preconditions whose failure stops a computation. -/
inductive Fault where
  /-- The variable `var`, counted from zero, already has a value. -/
  | assignedTwice (var : Nat)
  | levelOutOfStep
  | indexOutOfBounds
  | literalOverflow
  /-- A table over variables or literals would take more bytes than can be addressed. -/
  | tableTooLarge
  | unknownClause
  | watchOutOfPlace
  | stepLimit
deriving DecidableEq, Repr

/-- The text that reports a fault. Variables are counted from one in every text. -/
def Fault.message : Fault → String
  | .assignedTwice var => s!"variable x{var + 1} assigned twice"
  | .levelOutOfStep => "assignment level out of step"
  | .indexOutOfBounds => "index out of bounds"
  | .literalOverflow => "variable too large for a literal"
  | .tableTooLarge => "table too large"
  | .unknownClause => "no such clause"
  | .watchOutOfPlace => "clause visited through a literal it does not watch"
  | .stepLimit => "step limit exceeded"

/-- A computation that yields a value or stops with a fault. -/
abbrev Checked (α : Type) := Except Fault α

/-- A table takes fewer bytes than this, so that the distance between two of its entries is a signed
64-bit integer. -/
def byteLimit : Nat := UInt64.size / 2

/-- A new table of equal entries, each of which takes the given number of bytes. All together have to
stay below `byteLimit`. -/
def newTable {α : Type} (bytes count : Nat) (entry : α) : Checked (Array α) :=
  if count * bytes < byteLimit then .ok (Array.replicate count entry) else .error .tableTooLarge

def fetch {α : Type} (table : Array α) (index : Nat) : Checked α :=
  match table[index]? with
  | some entry => .ok entry
  | none => .error .indexOutOfBounds

def store {α : Type} (table : Array α) (index : Nat) (entry : α) : Checked (Array α) :=
  if inBounds : index < table.size then .ok (table.set index entry inBounds)
  else .error .indexOutOfBounds

/-- A computation in two steps yields a value exactly if both steps do. -/
theorem Checked.bind_eq_ok_iff {α β : Type} {first : Checked α} {second : α → Checked β}
    {result : β} :
    (first >>= second) = .ok result ↔ ∃ value, first = .ok value ∧ second value = .ok result := by
  cases first <;> simp [bind, Except.bind]

theorem newTable_of_lt {α : Type} {bytes count : Nat} (entry : α)
    (fits : count * bytes < byteLimit) :
    newTable bytes count entry = .ok (Array.replicate count entry) := by
  simp [newTable, fits]

/-- A table that does not stay below the limit cannot be made. -/
theorem newTable_of_not_lt {α : Type} {bytes count : Nat} (entry : α)
    (tooLarge : ¬ count * bytes < byteLimit) : newTable bytes count entry = .error .tableTooLarge := by
  simp [newTable, tooLarge]

/-- A table that could be made has as many equal entries as were asked for. -/
theorem eq_of_newTable {α : Type} {bytes count : Nat} {entry : α} {table : Array α}
    (made : newTable bytes count entry = .ok table) : table = Array.replicate count entry := by
  unfold newTable at made
  split at made
  · cases made
    rfl
  · cases made

/-- Reading succeeds exactly where the table has an entry. -/
theorem fetch_eq_ok_iff {α : Type} {table : Array α} {index : Nat} {entry : α} :
    fetch table index = .ok entry ↔ table[index]? = some entry := by
  unfold fetch
  split <;> simp_all

theorem fetch_of_lt {α : Type} {table : Array α} {index : Nat} (inBounds : index < table.size) :
    fetch table index = .ok table[index] := by
  simp [fetch, inBounds]

theorem store_of_lt {α : Type} {table : Array α} {index : Nat} (entry : α)
    (inBounds : index < table.size) :
    store table index entry = .ok (table.set index entry inBounds) := by
  simp [store, inBounds]

theorem store_eq_ok_iff {α : Type} {table table' : Array α} {index : Nat} {entry : α} :
    store table index entry = .ok table' ↔
      ∃ inBounds : index < table.size, table.set index entry inBounds = table' := by
  unfold store
  split
  · rename_i inBounds
    simp [inBounds]
  · rename_i outOfBounds
    simp [outOfBounds]

end ClauseLearning
