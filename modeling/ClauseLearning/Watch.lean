import ClauseLearning.Lit
import ClauseLearning.Fault

/-! # Watch lists

A clause that watches a literal has to be looked at again when that literal turns false, that is,
when its negation is put on the trail. So the watcher of a clause for the literal `l` stands in the
list of the negation of `l`: the list of a literal holds what to visit once that literal is true.
-/

namespace ClauseLearning

/-- An entry of a watch list: a clause, and a literal of it that makes a visit needless when it
holds. -/
structure Watcher where
  clause : Nat
  /-- A literal of the clause. While it holds, the clause is satisfied. -/
  blocker : Lit
deriving DecidableEq, Repr, Inhabited

/-- For each literal, by its code, the watchers to visit once the literal is true. -/
structure WatchTable where
  /-- The watchers under each code of a literal. -/
  lists : Array (List Watcher)
deriving Repr, Inhabited

namespace WatchTable

/-- How many bytes the list of a literal takes while it is empty: its address, room and length. -/
def listBytes : Nat := 24

def empty (lits : Nat) : Checked WatchTable := do return ⟨← newTable listBytes lits []⟩

def watchers (table : WatchTable) (l : Lit) : Checked (List Watcher) := fetch table.lists l.code

def put (table : WatchTable) (l : Lit) (watchers : List Watcher) : Checked WatchTable := do
  return ⟨← store table.lists l.code watchers⟩

/-- The table in which a clause, in addition, watches a literal, with another literal of it as
blocker. -/
def watch (table : WatchTable) (watched : Lit) (clause : Nat) (blocker : Lit) :
    Checked WatchTable := do
  table.put watched.negate ((← table.watchers watched.negate) ++ [⟨clause, blocker⟩])

/-- The table in which a clause, in addition, watches the first two of its literals, each with the
other as blocker. A clause with fewer literals watches none. -/
def watchFirstTwo (table : WatchTable) (clause : Nat) : List Lit → Checked WatchTable
  | first :: second :: _ => do
    (← table.watch first clause second).watch second clause first
  | _ => return table

end WatchTable

end ClauseLearning
