import ClauseLearning.Proofs.Input.Built
import ClauseLearning.Proofs.Input.Filling
import ClauseLearning.Proofs.Input.Layout

/-! # Reading back a printed formula

A formula is printed as the numbers of its variables and clauses, then clause after clause the signed
integers of the literals and a zero. However this is laid out on lines, it is read back as the same
formula, and nothing about it is odd.
-/

namespace ClauseLearning.Dimacs

open Formula (Fits)

/-- The words of a clause in print. -/
def printed (lits : List Lit) : List (List Char) := lits.map (·.text.toList) ++ [['0']]

def encoded (lits : List Lit) : List Int := lits.map Lit.toInt ++ [0]

section Printing
variable {l : Lit} {lits : List Lit} {clauses : List (List Lit)}

theorem signed_text (moderate : l.var < 2 ^ 31) : Text.Signed l.text.toList l.toInt := by
  have size := l.natAbs_toInt
  exact Text.signed_toString (by omega) (by omega)

theorem signed_printed (moderate : ∀ l ∈ lits, l.var < 2 ^ 31) :
    List.Forall₂ Text.Signed (printed lits) (encoded lits) := by
  induction lits with
  | nil => exact .cons (Text.signed?_eq_some_iff.mp rfl) .nil
  | cons l rest ih =>
    obtain ⟨here, later⟩ := List.forall_mem_cons.mp moderate
    exact .cons (signed_text here) (ih later)

theorem signed_flatMap_printed (moderate : ∀ lits ∈ clauses, ∀ l ∈ lits, l.var < 2 ^ 31) :
    List.Forall₂ Text.Signed (clauses.flatMap printed) (clauses.flatMap encoded) := by
  induction clauses with
  | nil => exact .nil
  | cons lits rest ih =>
    obtain ⟨here, later⟩ := List.forall_mem_cons.mp moderate
    exact List.rel_append (signed_printed here) (ih later)

end Printing

section Filling
variable {f : Formula} {stop : Except DimacsError Nat} {declared : Nat} {xs unclosed : List Int}
  {lits : List Lit} {clauses : List (List Lit)} {placed begun rest : List Placed}

theorem fill_of_nonzeros (nonzero : ∀ q ∈ begun, q.value ≠ 0) :
    fill stop declared (begun ++ rest) f unclosed =
      fill stop declared rest f (unclosed ++ begun.map Placed.value) := by
  induction begun generalizing unclosed with
  | nil => rw [List.nil_append, List.map_nil, List.append_nil]
  | cons q others ih =>
    obtain ⟨here, later⟩ := List.forall_mem_cons.mp nonzero
    rw [List.cons_append, fill_of_nonzero here, ih later, List.append_assoc]
    rfl

/-- The integers of a clause in print add the clause. -/
theorem fill_encoded (fits : ∀ l ∈ lits, Fits f.varCount l.toInt)
    (values : placed.map Placed.value = encoded lits ++ xs) :
    ∃ later, later.map Placed.value = xs ∧ fill stop declared placed f [] =
      fill stop declared later { f with clauses := f.clauses.push lits } [] := by
  -- The integers found are cut as the values are: the literals, the zero, and those of other clauses.
  obtain ⟨front, later, rfl, clause, others⟩ := List.map_eq_append_iff.mp values
  obtain ⟨begun, zeros, rfl, given, zero⟩ := List.map_eq_append_iff.mp clause
  obtain ⟨q, rfl, closes⟩ := List.map_eq_singleton_iff.mp zero
  have nonzero : ∀ q ∈ begun, q.value ≠ 0 := by
    intro q member
    obtain ⟨l, -, same⟩ := List.mem_map.mp (given ▸ List.mem_map_of_mem member)
    exact same ▸ l.toInt_ne_zero
  have back : (lits.map Lit.toInt).map Lit.ofNonzero = lits := by
    rw [List.map_map]
    exact (List.map_congr_left fun l _ => l.ofNonzero_toInt).trans (List.map_id lits)
  refine ⟨later, others, ?_⟩
  rw [List.append_assoc, fill_of_nonzeros nonzero, given, List.nil_append, List.singleton_append,
    fill_of_fits closes (List.forall_mem_map.mpr fits), back]

/-- The integers of clauses in print add the clauses, and none is left unclosed. -/
theorem fill_flatMap_encoded (declared last : Nat)
    (fits : ∀ lits ∈ clauses, ∀ l ∈ lits, Fits f.varCount l.toInt)
    (values : placed.map Placed.value = clauses.flatMap encoded) :
    fill (.ok last) declared placed f [] = .ok (.ok { f with clauses := f.clauses ++ clauses.toArray },
      countWarnings declared { f with clauses := f.clauses ++ clauses.toArray }) := by
  induction clauses generalizing f placed with
  | nil =>
    obtain rfl := List.map_eq_nil_iff.mp values
    simp only [fill, finish, List.isEmpty_nil, if_true, Array.append_empty]
    rfl
  | cons lits rest ih =>
    obtain ⟨here, others⟩ := List.forall_mem_cons.mp fits
    obtain ⟨later, values, step⟩ := fill_encoded here values
    rw [step, ih (f := { f with clauses := f.clauses.push lits }) others values]
    simp

end Filling

/-- A formula that can be built is read back from its print, however that is laid out, without a
warning. The number of its clauses fits into 64 bits, as the problem line has to announce it. -/
theorem readText_laidOut {f : Formula} {lines : List (List Char)} {text : String} (built : f.Built)
    (moderate : f.varCount ≤ 2 ^ 31) (countable : f.size < 2 ^ 64) (composed : Composed lines text.toList)
    (document : Document f.varCount f.size (f.clauses.toList.flatMap printed) lines) :
    readText text = .ok (.ok f, []) := by
  have below : ∀ lits ∈ f.clauses.toList, ∀ l ∈ lits, l.var < 2 ^ 31 := fun lits member l inside =>
    Nat.lt_of_lt_of_le (built.inRange lits member l inside) moderate
  have fits : ∀ lits ∈ f.clauses.toList, ∀ l ∈ lits, Fits f.varCount l.toInt := fun lits member l inside =>
    Formula.fits_toInt moderate (built.inRange lits member l inside)
  obtain ⟨placed, last, values, scanned⟩ :=
    document.scan_finds (by omega) countable (signed_flatMap_printed below) 0
  have filled := fill_flatMap_encoded (f := ⟨f.varCount, #[]⟩) f.size last fits values
  rw [readText, textLines, composed.splitLines_eq, read_eq, scanned]
  simpa [countWarnings] using filled

/-- Two signs, an empty clause, and a repeated literal. -/
def oddments : Formula := ⟨2, #[[⟨0, false⟩, ⟨1, true⟩], [], [⟨0, true⟩, ⟨0, true⟩]]⟩

theorem oddments_built : oddments.Built :=
  .given (show Formula.ofClauses [[1, -2], [], [-1, -1]] = .ok (.ok oddments) by decide +kernel)

theorem readText_laidOut_oddments : readText "c\n\np cnf 2 3\n 1\nc -1\n\t-2 0  0\n-1 -1 0\n%\np" =
    .ok (.ok oddments, []) := by
  have none : ∀ c ∈ ([] : List Char), Text.isBlank c := List.forall_mem_nil _
  have space : ∀ c ∈ [' '], Text.isBlank c := List.forall_mem_singleton.mpr (by decide)
  have tab : ∀ c ∈ ['\t'], Text.isBlank c := List.forall_mem_singleton.mpr (by decide)
  have words : oddments.clauses.toList.flatMap printed =
      ["1".toList] ++ (["-2".toList, "0".toList, "0".toList] ++
        (["-1".toList, "-1".toList, "0".toList] ++ [])) := by
    decide +kernel
  -- A comment and a blank line come first, and another comment stands amid the first clause.
  refine readText_laidOut oddments_built (by decide) (by decide)
    (.cons "c".toList (by decide) (.cons [] (by decide) (.cons "p cnf 2 3".toList (by decide)
      (.cons " 1".toList (by decide) (.cons "c -1".toList (by decide)
        (.cons "\t-2 0  0".toList (by decide) (.cons "-1 -1 0".toList (by decide)
          (.cons "%".toList (by decide) (.last "p".toList (by decide) (by decide)))))))))) ?_
  rw [words]
  refine .idle (.comment [] [] none) (.idle (.blank [] none) (.problem ?_ ?_))
  · exact .cons [] _ ' ' none rfl (.cons [] _ ' ' none rfl (.cons [] _ ' ' none rfl (.last [] _ none)))
  · refine .data (by decide) (.last [' '] _ space) (.idle (.comment [] _ none)
      (.data (by decide) ?_ (.data (by decide) ?_ (.ended [] [] _ none))))
    · exact .cons ['\t'] _ ' ' tab rfl (.cons [] _ ' ' none rfl (.last [' '] _ space))
    · exact .cons [] _ ' ' none rfl (.cons [] _ ' ' none rfl (.last [] _ none))

end ClauseLearning.Dimacs
