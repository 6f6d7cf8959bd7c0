import ClauseLearning.Text.Blank
import Mathlib.Data.List.TakeWhile

/-! # Words between blanks

Blanks separate words and do nothing else: a text has the words of its pieces, wherever it is cut at a
blank, and blanks at its ends do not count.
-/

namespace ClauseLearning.Text
variable {c : Char} {cs word gap : List Char}

/-- A blank separates the words before it from those after it. -/
theorem words_append_cons (blank : isBlank c) (cs rest : List Char) :
    words (cs ++ c :: rest) = words cs ++ words rest := by
  rw [words, List.splitOnP_append_cons cs rest blank, List.filter_append]
  rfl

theorem words_cons_of_blank (blank : isBlank c) (rest : List Char) : words (c :: rest) = words rest :=
  words_append_cons blank [] rest

theorem words_append_left (blank : ∀ c ∈ gap, isBlank c) (cs : List Char) :
    words (gap ++ cs) = words cs := by
  induction gap with
  | nil => rfl
  | cons c rest ih =>
    obtain ⟨first, others⟩ := List.forall_mem_cons.mp blank
    rw [List.cons_append, words_cons_of_blank first, ih others]

theorem words_of_blank (blank : ∀ c ∈ gap, isBlank c) : words gap = [] := by
  rw [← List.append_nil gap, words_append_left blank]
  rfl

theorem words_append_right (blank : ∀ c ∈ gap, isBlank c) (cs : List Char) :
    words (cs ++ gap) = words cs := by
  cases gap with
  | nil => rw [List.append_nil]
  | cons c rest =>
    obtain ⟨first, others⟩ := List.forall_mem_cons.mp blank
    rw [words_append_cons first, words_of_blank others, List.append_nil]

/-- Without blanks there is one word. -/
theorem words_of_solid (begun : word ≠ []) (solid : ∀ c ∈ word, isBlank c = false) :
    words word = [word] := by
  rw [words, List.splitOnP_eq_singleton solid]
  simp [begun]

/-- The first word starts where the text starts, if that is no blank. -/
theorem head_words (rest : List Char) (solid : isBlank c = false) :
    ∃ tail more, words (c :: rest) = (c :: tail) :: more := by
  obtain ⟨first, others, pieces⟩ := List.exists_cons_of_ne_nil (List.splitOnP_ne_nil isBlank rest)
  exact ⟨first, others.filter (fun word => !word.isEmpty), by
    simp [words, List.splitOnP_cons_eq_if_modifyHead, solid, pieces]⟩

/-! ## Blanks at the ends -/

/-- A text is what is left of it between blanks. -/
theorem exists_trim (cs : List Char) : ∃ front back, cs = front ++ (trim cs ++ back) ∧
    (∀ c ∈ front, isBlank c) ∧ ∀ c ∈ back, isBlank c := by
  refine ⟨cs.takeWhile isBlank, ((cs.dropWhile isBlank).reverse.takeWhile isBlank).reverse, ?_,
    fun c => List.mem_takeWhile_imp, fun c member => List.mem_takeWhile_imp (List.mem_reverse.mp member)⟩
  rw [trim, ← List.reverse_append, List.takeWhile_append_dropWhile, List.reverse_reverse,
    List.takeWhile_append_dropWhile]

theorem words_trim (cs : List Char) : words (trim cs) = words cs := by
  obtain ⟨front, back, same, before, after⟩ := exists_trim cs
  rw [same, words_append_left before, words_append_right after, ← same]

theorem trim_of_blank (blank : ∀ c ∈ gap, isBlank c) : trim gap = [] := by
  rw [trim, List.dropWhile_eq_nil_iff.mpr blank]
  rfl

/-- A text without blanks at its ends starts, if it has anything, with a character that is none. -/
theorem isBlank_head_trim {rest : List Char} (same : trim cs = c :: rest) : isBlank c = false := by
  obtain ⟨front, split⟩ : ∃ front, cs.dropWhile isBlank = trim cs ++ front := by
    refine ⟨((cs.dropWhile isBlank).reverse.takeWhile isBlank).reverse, ?_⟩
    rw [trim, ← List.reverse_append, List.takeWhile_append_dropWhile, List.reverse_reverse]
  have := List.head?_dropWhile_not isBlank cs
  simpa [split, same] using this

/-- Trimmed, a text starts like its first word. -/
theorem head_trim_of_words {tail : List Char} {more : List (List Char)}
    (first : words cs = (c :: tail) :: more) : (trim cs).head? = some c := by
  rw [← words_trim] at first
  cases same : trim cs with
  | nil =>
    rw [same] at first
    cases first
  | cons d rest =>
    obtain ⟨_, _, starts⟩ := head_words rest (isBlank_head_trim same)
    rw [same, starts] at first
    cases first
    rfl

/-- Trimmed, a text starts with the first character that is no blank. -/
theorem head_trim_of_gap (blank : ∀ c ∈ gap, isBlank c) (solid : isBlank c = false)
    (rest : List Char) : (trim (gap ++ c :: rest)).head? = some c := by
  obtain ⟨tail, more, starts⟩ := head_words rest solid
  exact head_trim_of_words ((words_append_left blank _).trans starts)

end ClauseLearning.Text
