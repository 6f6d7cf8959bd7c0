import ClauseLearning.Proofs.Input.Encoding
import ClauseLearning.Proofs.Input.Reader

/-! # What a prefix decides

Reading goes forward only: what it has made of the lines behind it does not depend on the lines ahead,
not even on whether they are text. So an error that a line gives rise to stays, with its line number,
whatever follows that line, and a line that ends the input settles the formula or the error.

`Reaches` is the relation between the lines and the moments of reading them. A moment is reached
through the lines before it alone (`Reaches.of_take`), and from each moment reached reading goes on
as it did (`Reaches.readOn_eq`). Both are inductions along the lines read.
-/

namespace ClauseLearning.Dimacs

/-- Reading comes to the line after the first `k` ones, which have given `progress`: each of them can be
read, is not at fault and does not end the input. -/
inductive Reaches (lines : List (Except ReadFailure (List Char))) : Nat → Progress → Prop
  | start : Reaches lines 0 {}
  | next {k : Nat} {progress progress' : Progress} {line : List Char} :
      Reaches lines k progress → lines[k]? = some (.ok line) →
      readLine (k + 1) line progress = .ok (.more progress') → Reaches lines (k + 1) progress'

/-- Reading comes to line `k`, counted from one, and the line cannot be read or is at fault. -/
def FailsAt (lines : List (Except ReadFailure (List Char))) (k : Nat) (e : DimacsError) : Prop :=
  ∃ before progress, k = before + 1 ∧ Reaches lines before progress ∧
    ((∃ failure, lines[before]? = some (.error failure) ∧ e = .unreadable failure) ∨
      ∃ line, lines[before]? = some (.ok line) ∧ readLine k line progress = .ok (.failed e))

/-- Reading comes to line `k`, counted from one, after lines that have given `progress`, and the line
starts with a percent sign. -/
def EndsAt (lines : List (Except ReadFailure (List Char))) (k : Nat) (progress : Progress) : Prop :=
  ∃ before line, k = before + 1 ∧ Reaches lines before progress ∧
    lines[before]? = some (.ok line) ∧ endsInput (Text.trim line)

/-! ## The line of an error -/

section Words
variable {f : Formula} {unclosed : List Int} {number : Nat} {e : DimacsError}

/-- What is wrong with a word, or with the clause that it closes, is reported for the line. -/
theorem line?_of_readWords {words : List (List Char)}
    (failed : readWords number words f unclosed = .ok (.error e)) : e.line? = some number := by
  induction words generalizing f unclosed with
  | nil => cases failed
  | cons word rest ih =>
    simp only [readWords] at failed
    split at failed
    · cases failed
      rfl
    · split at failed
      · obtain ⟨outcome, added, result⟩ := Checked.bind_eq_ok_iff.mp failed
        cases outcome with
        | error reason =>
          cases result
          rfl
        | ok f' => exact ih result
      · exact ih failed

/-- A line at fault is the line that the error names. -/
theorem line?_of_readLine {line : List Char} {progress : Progress}
    (failed : readLine number line progress = .ok (.failed e)) : e.line? = some number := by
  simp only [readLine] at failed
  split at failed
  case h_4 | h_6 =>
    cases failed
    rfl
  case h_5 =>
    split at failed <;> cases failed
    rfl
  case h_7 =>
    obtain ⟨outcome, words, result⟩ := Checked.bind_eq_ok_iff.mp failed
    cases outcome with
    | error e' =>
      cases result
      exact line?_of_readWords words
    | ok _ => cases result
  all_goals cases failed

/-- Only a percent sign ends the input. -/
theorem endsInput_of_readLine {line : List Char} {progress progress' : Progress}
    (last : readLine number line progress = .ok (.last progress')) : endsInput (Text.trim line) := by
  simp only [readLine] at last
  split at last
  case h_3 starts => simp [endsInput, starts]
  case h_5 => split at last <;> cases last
  case h_7 =>
    obtain ⟨outcome, words, result⟩ := Checked.bind_eq_ok_iff.mp last
    cases outcome <;> cases result
  all_goals cases last

end Words

/-! ## The lines behind and the lines ahead -/

section Reaching
variable {lines lines' : List (Except ReadFailure (List Char))} {k : Nat} {progress : Progress}
  {e : DimacsError}

/-- Inputs with the same first lines have the same lines in each place among them. -/
theorem getElem?_of_take {before : Nat} {line : Except ReadFailure (List Char)}
    (same : lines'.take k = lines.take k) (below : before < k) (found : lines[before]? = some line) :
    lines'[before]? = some line := by
  rw [← List.getElem?_take_of_lt below, same, List.getElem?_take_of_lt below, found]

/-- Inputs with the same first lines have fewer first lines in common, too. -/
theorem take_of_take (same : lines'.take (k + 1) = lines.take (k + 1)) :
    lines'.take k = lines.take k := by
  simpa [List.take_take] using congrArg (List.take k) same

/-- What the lines behind have given does not depend on the lines ahead. -/
theorem Reaches.of_take (reaches : Reaches lines k progress) (same : lines'.take k = lines.take k) :
    Reaches lines' k progress := by
  induction reaches with
  | start => exact .start
  | @next k _ _ _ _ found read ih =>
    exact .next (ih (take_of_take same)) (getElem?_of_take same (Nat.lt_succ_self k) found) read

theorem FailsAt.of_take (fails : FailsAt lines k e) (same : lines'.take k = lines.take k) :
    FailsAt lines' k e := by
  obtain ⟨before, progress, rfl, reaches, cause⟩ := fails
  have kept {line : Except ReadFailure (List Char)} (found : lines[before]? = some line) :
      lines'[before]? = some line := getElem?_of_take same (Nat.lt_succ_self before) found
  refine ⟨before, progress, rfl, reaches.of_take (take_of_take same), ?_⟩
  rcases cause with ⟨failure, found, rfl⟩ | ⟨line, found, failed⟩
  · exact .inl ⟨failure, kept found, rfl⟩
  · exact .inr ⟨line, kept found, failed⟩

theorem EndsAt.of_take (ends : EndsAt lines k progress) (same : lines'.take k = lines.take k) :
    EndsAt lines' k progress := by
  obtain ⟨before, line, rfl, reaches, found, percent⟩ := ends
  exact ⟨before, line, rfl, reaches.of_take (take_of_take same),
    getElem?_of_take same (Nat.lt_succ_self before) found, percent⟩

/-- From a moment reached on, reading only looks at the lines ahead. -/
theorem Reaches.read_eq (reaches : Reaches lines k progress) :
    read lines = readOn (lines.drop k) k progress := by
  induction reaches with
  | start => rfl
  | next _ found goesOn ih =>
    rw [ih, List.drop_eq_getElem?_toList_append, found]
    simp [readOn_cons, goesOn]

theorem FailsAt.read_eq (fails : FailsAt lines k e) : read lines = .ok (.error e, []) := by
  obtain ⟨before, progress, rfl, reaches, cause⟩ := fails
  rw [reaches.read_eq, List.drop_eq_getElem?_toList_append]
  rcases cause with ⟨failure, found, rfl⟩ | ⟨line, found, failed⟩
  · rw [found]
    rfl
  · rw [found, Option.toList_some, List.singleton_append, readOn_cons, failed]
    rfl

theorem EndsAt.read_eq (ends : EndsAt lines k progress) : read lines = finish k progress := by
  obtain ⟨before, line, rfl, reaches, found, percent⟩ := ends
  rw [reaches.read_eq, List.drop_eq_getElem?_toList_append, found, Option.toList_some,
    List.singleton_append, readOn_of_ends percent]

theorem Reaches.le_length (reaches : Reaches lines k progress) : k ≤ lines.length := by
  cases reaches with
  | start => exact Nat.zero_le _
  | next _ found _ => exact (List.getElem?_eq_some_iff.mp found).1

theorem FailsAt.le_length (fails : FailsAt lines k e) : k ≤ lines.length := by
  obtain ⟨before, progress, rfl, -, cause⟩ := fails
  rcases cause with ⟨failure, found, -⟩ | ⟨line, found, -⟩ <;>
    exact (List.getElem?_eq_some_iff.mp found).1

theorem EndsAt.le_length (ends : EndsAt lines k progress) : k ≤ lines.length := by
  obtain ⟨before, line, rfl, -, found, -⟩ := ends
  exact (List.getElem?_eq_some_iff.mp found).1

/-- From each moment on, reading that yields anything fails at a line, ends at a line, or comes to the
end of the input. -/
theorem Reaches.outcomes {outcome : Except DimacsError Formula × List Warning}
    (reaches : Reaches lines k progress) (yields : read lines = .ok outcome) :
    (∃ k e, FailsAt lines k e) ∨ (∃ k progress, EndsAt lines k progress) ∨
      ∃ progress, Reaches lines lines.length progress := by
  -- The induction is on the lines ahead.
  induction ahead : lines.drop k generalizing k progress with
  | nil =>
    have all : k = lines.length := le_antisymm reaches.le_length (List.drop_eq_nil_iff.mp ahead)
    exact .inr (.inr ⟨progress, all ▸ reaches⟩)
  | cons line rest ih =>
    have found : lines[k]? = some line := by rw [← List.head?_drop, ahead, List.head?_cons]
    have further : lines.drop (k + 1) = rest := by rw [← List.tail_drop, ahead, List.tail_cons]
    cases line with
    | error failure => exact .inl ⟨k + 1, _, k, progress, rfl, reaches, .inl ⟨failure, found, rfl⟩⟩
    | ok line =>
      cases result : readLine (k + 1) line progress with
      | error fault =>
        rw [reaches.read_eq, ahead, readOn_cons, result] at yields
        cases yields
      | ok result' =>
        cases result' with
        | more progress' => exact ih (.next reaches found result) further
        | last progress' =>
          exact .inr (.inl ⟨k + 1, progress, k, line, rfl, reaches, found, endsInput_of_readLine result⟩)
        | failed e => exact .inl ⟨k + 1, e, k, progress, rfl, reaches, .inr ⟨line, found, result⟩⟩

end Reaching

/-! ## Bytes with the same first lines -/

section Bytes
variable {bytes bytes' : List UInt8} {k : Nat} {e : DimacsError} {progress : Progress}

/-- The first `k` lines of the bytes, each closed by a line feed. -/
def firstLines (k : Nat) (bytes : List UInt8) : List UInt8 :=
  ((splitLines (· == 10) bytes).take k).flatMap (· ++ [10])

/-- The bytes start with the same `k` lines. -/
def SameLines (k : Nat) (bytes bytes' : List UInt8) : Prop :=
  (splitLines (· == 10) bytes').take k = (splitLines (· == 10) bytes).take k

/-- Whatever follows the first `k` lines, in any bytes that have these lines or in what is appended to
them, the outcome is the one given. -/
def Settles (k : Nat) (bytes : List UInt8)
    (outcome : Checked (Except DimacsError Formula × List Warning)) : Prop :=
  (∀ bytes', SameLines k bytes bytes' → readBytes bytes' = outcome) ∧
    ∀ rest, readBytes (firstLines k bytes ++ rest) = outcome

theorem SameLines.take_byteLines (same : SameLines k bytes bytes') :
    (byteLines bytes').take k = (byteLines bytes).take k := by
  rw [byteLines, byteLines, ← List.map_take, ← List.map_take, same]

/-- Lines that are closed one by one are the first lines of whatever follows them. -/
theorem splitLines_flatMap_append {lines : List (List UInt8)} (rest : List UInt8)
    (inside : ∀ line ∈ lines, ∀ b ∈ line, (b == 10) = false) :
    splitLines (· == 10) (lines.flatMap (· ++ [10]) ++ rest) = lines ++ splitLines (· == 10) rest := by
  induction lines with
  | nil => rfl
  | cons line lines ih =>
    obtain ⟨first, others⟩ := List.forall_mem_cons.mp inside
    rw [List.flatMap_cons, List.append_assoc, List.append_assoc, List.singleton_append,
      splitLines_append_cons first rfl, ih others, List.cons_append]

theorem sameLines_firstLines (few : k ≤ (splitLines (· == 10) bytes).length) (rest : List UInt8) :
    SameLines k bytes (firstLines k bytes ++ rest) := by
  have inside : ∀ line ∈ (splitLines (· == 10) bytes).take k, ∀ b ∈ line, (b == 10) = false :=
    fun _ member => not_isLineEnd_of_mem_splitLines (List.mem_of_mem_take member)
  rw [SameLines, firstLines, splitLines_flatMap_append rest inside]
  exact List.take_left' (List.length_take_of_le few)

/-- What holds of all bytes with the same first lines is settled by these lines. -/
theorem settles_of_forall {outcome : Checked (Except DimacsError Formula × List Warning)}
    (few : k ≤ (byteLines bytes).length)
    (same : ∀ bytes', (byteLines bytes').take k = (byteLines bytes).take k → readBytes bytes' = outcome) :
    Settles k bytes outcome := by
  rw [byteLines, List.length_map] at few
  exact ⟨fun bytes' shared => same bytes' shared.take_byteLines,
    fun rest => same _ (sameLines_firstLines few rest).take_byteLines⟩

theorem FailsAt.settles (fails : FailsAt (byteLines bytes) k e) :
    Settles k bytes (.ok (.error e, [])) :=
  settles_of_forall fails.le_length fun _ same => (fails.of_take same).read_eq

theorem EndsAt.settles (ends : EndsAt (byteLines bytes) k progress) :
    Settles k bytes (readBytes bytes) :=
  settles_of_forall ends.le_length fun _ same => (ends.of_take same).read_eq.trans ends.read_eq.symm

/-- A line that cannot be read is one that is no text. -/
theorem unreadable_byteLines {before : Nat} {failure : ReadFailure}
    (found : (byteLines bytes)[before]? = some (.error failure)) :
    failure = .invalidText ∧ ∃ line, (splitLines (· == 10) bytes)[before]? = some line ∧
      ByteArray.utf8Decode? ⟨line.toArray⟩ = none := by
  rw [byteLines, List.getElem?_map, Option.map_eq_some_iff] at found
  obtain ⟨line, found, failed⟩ := found
  rw [decodeLine] at failed
  split at failed
  · cases failed
  · rename_i invalid
    cases failed
    exact ⟨rfl, line, found, invalid⟩

/-- The error names the line at which reading fails, unless the line is no text. -/
theorem FailsAt.line? (fails : FailsAt (byteLines bytes) k e) : e.line? = some k ∨
    e = .unreadable .invalidText ∧ ∃ line, (splitLines (· == 10) bytes)[k - 1]? = some line ∧
      ByteArray.utf8Decode? ⟨line.toArray⟩ = none := by
  obtain ⟨before, progress, rfl, -, cause⟩ := fails
  rcases cause with ⟨failure, found, rfl⟩ | ⟨line, -, failed⟩
  · obtain ⟨rfl, invalid⟩ := unreadable_byteLines found
    exact .inr ⟨rfl, invalid⟩
  · exact .inl (line?_of_readLine failed)

end Bytes

/-- Reading bytes that yields anything fails at a line, ends at a line with a percent sign, or takes all
lines and then ends the input. If it fails at line `k`, then the error names that line or the line is no
text, and all bytes that start with the same `k` lines fail with the same error. If it ends at line `k`,
then all bytes that start with the same `k` lines have the same outcome. -/
theorem prefix_decides (bytes : List UInt8) :
    (∀ outcome, readBytes bytes = .ok outcome →
      (∃ k e, FailsAt (byteLines bytes) k e ∧ outcome = (.error e, [])) ∨
      (∃ k progress, EndsAt (byteLines bytes) k progress ∧ finish k progress = .ok outcome) ∨
      ∃ progress, Reaches (byteLines bytes) (byteLines bytes).length progress ∧
        finish (byteLines bytes).length progress = .ok outcome) ∧
    (∀ k e, FailsAt (byteLines bytes) k e →
      (e.line? = some k ∨ e = .unreadable .invalidText ∧
        ∃ line, (splitLines (· == 10) bytes)[k - 1]? = some line ∧
          ByteArray.utf8Decode? ⟨line.toArray⟩ = none) ∧
      Settles k bytes (.ok (.error e, []))) ∧
    ∀ k progress, EndsAt (byteLines bytes) k progress → Settles k bytes (readBytes bytes) := by
  refine ⟨fun outcome yields => ?_, fun k e fails => ⟨fails.line?, fails.settles⟩,
    fun k progress ends => ends.settles⟩
  rcases Reaches.start.outcomes yields with ⟨k, e, fails⟩ | ⟨k, progress, ends⟩ | ⟨progress, reaches⟩
  · cases yields.symm.trans fails.read_eq
    exact .inl ⟨k, e, fails, rfl⟩
  · exact .inr (.inl ⟨k, progress, ends, ends.read_eq.symm.trans yields⟩)
  · refine .inr (.inr ⟨progress, reaches, ?_⟩)
    rw [← yields, readBytes, reaches.read_eq, List.drop_length]
    rfl

/-- The second line has a word that is no integer. -/
def misspelt : List UInt8 := encode "p cnf 2 1\n1 two 0\n".toList

/-- The third line ends the input while a clause is open. -/
def cutShort : List UInt8 := encode "p cnf 2 1\n1 -2\n%\n".toList

theorem prefix_decides_misspelt_cutShort :
    (∀ rest, readBytes (misspelt ++ rest) = .ok (.error (.badLiteral 2 "two"), [])) ∧
    ∀ rest, readBytes (cutShort ++ rest) =
      .ok (.ok ⟨2, #[[⟨0, false⟩, ⟨1, true⟩]]⟩, [.unterminatedClause]) := by
  have fails : FailsAt (byteLines misspelt) 2 (.badLiteral 2 "two") := by
    rw [misspelt, byteLines_encode]
    exact ⟨1, _, rfl, .next .start rfl rfl, .inr ⟨_, rfl, rfl⟩⟩
  have ends : ∃ progress, EndsAt (byteLines cutShort) 3 progress := by
    rw [cutShort, byteLines_encode]
    exact ⟨_, 2, _, rfl, .next (.next .start rfl rfl) rfl rfl, rfl, rfl⟩
  obtain ⟨progress, ends⟩ := ends
  obtain ⟨-, settled⟩ := ((prefix_decides misspelt).2.1 2 _ fails).2
  obtain ⟨-, unmoved⟩ := (prefix_decides cutShort).2.2 3 progress ends
  have whole : firstLines 2 misspelt = misspelt := by decide +kernel
  have whole' : firstLines 3 cutShort = cutShort := by decide +kernel
  have outcome : readBytes cutShort =
      .ok (.ok ⟨2, #[[⟨0, false⟩, ⟨1, true⟩]]⟩, [.unterminatedClause]) := by
    rw [readBytes, cutShort, byteLines_encode]
    decide +kernel
  rw [whole] at settled
  rw [whole', outcome] at unmoved
  exact ⟨settled, unmoved⟩

end ClauseLearning.Dimacs
