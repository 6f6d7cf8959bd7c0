import ClauseLearning.Proofs.Input.Encoding
import ClauseLearning.Proofs.Input.Reader

/-! # Which texts are read, and as which formulas

A text is read exactly if it follows the grammar, and the formula has the number of variables that the
problem line announces and the clauses that the zeros cut out of the integers. The bound on the number
of variables keeps every literal within its code; beyond it there is no outcome to speak of.
-/

namespace ClauseLearning.Dimacs

/-- The trimmed lines of a text that are no blank lines or comments, up to the end of the input. -/
def contentOf (text : String) : List (List Char) := contentLines (splitLines (· == '\n') text.toList)

/-- The text is read as the formula, perhaps with warnings. -/
def Reads (text : String) (f : Formula) : Prop := ∃ warnings, readText text = .ok (.ok f, warnings)

/-- The lines are the same but for the number of clauses announced. -/
def AgreeButForCount (content content' : List (List Char)) : Prop :=
  ∃ line line' rest vars clauses clauses', content = line :: rest ∧ content' = line' :: rest ∧
    Announces line vars clauses ∧ Announces line' vars clauses'

theorem Grammatical.unique {content : List (List Char)} {vars vars' : Nat} {tokens tokens' : List Int}
    (one : Grammatical content vars tokens) (other : Grammatical content vars' tokens') :
    vars = vars' ∧ tokens = tokens' := by
  obtain ⟨line, first, clauses, announces⟩ := one.problem
  obtain ⟨line', first', clauses', announces'⟩ := other.problem
  cases Option.mem_unique first first'
  exact ⟨announces.unique announces', Text.signed_forall₂_unique one.data.numerals other.data.numerals⟩

theorem Grammatical.of_agree {content content' : List (List Char)} {vars : Nat} {tokens : List Int}
    (agree : AgreeButForCount content content') (grammatical : Grammatical content vars tokens) :
    Grammatical content' vars tokens := by
  obtain ⟨line, line', rest, vars', clauses, clauses', rfl, rfl, announces, announces'⟩ := agree
  obtain ⟨⟨_, ⟨⟩, _, same⟩, data, within⟩ := grammatical
  cases same.unique announces
  exact ⟨⟨line', rfl, clauses', announces'⟩, data, within⟩

theorem AgreeButForCount.symm {content content' : List (List Char)}
    (agree : AgreeButForCount content content') : AgreeButForCount content' content := by
  obtain ⟨line, line', rest, vars, clauses, clauses', same, same', announces, announces'⟩ := agree
  exact ⟨line', line, rest, vars, clauses', clauses, same', same, announces', announces⟩

theorem Moderate.of_agree {content content' : List (List Char)} (moderate : Moderate content)
    (agree : AgreeButForCount content content') : Moderate content' := by
  obtain ⟨line, line', rest, vars, clauses, clauses', rfl, rfl, announces, announces'⟩ := agree
  rintro _ ⟨⟩ vars'' clauses'' other
  cases other.unique announces'
  exact moderate line rfl _ _ announces

/-- All lines of a text can be read, so that the grammar alone matters. -/
theorem readText_yields {text : String} (moderate : Moderate (contentOf text)) :
    Yields (readText text) fun outcome =>
      ∀ f, outcome.1 = .ok f ↔ ∃ tokens, Describes (contentOf text) tokens f := by
  have content : contentLines (readable (textLines text.toList)) = contentOf text := by
    rw [textLines, readable_map_ok, contentOf]
  have legible : Legible (textLines text.toList) := legible_map_ok _
  rw [← content] at moderate ⊢
  refine (read_yields moderate).imp fun outcome same f => ?_
  rw [same f, and_iff_right legible]

theorem reads_iff {text : String} {f : Formula} (moderate : Moderate (contentOf text)) :
    Reads text f ↔ ∃ tokens, Describes (contentOf text) tokens f := by
  obtain ⟨⟨result, warnings⟩, read, same⟩ := readText_yields moderate
  rw [← same f]
  constructor
  · rintro ⟨warnings', given⟩
    cases read.symm.trans given
    rfl
  · rintro rfl
    exact ⟨warnings, read⟩

theorem exists_reads_iff {text : String} (moderate : Moderate (contentOf text)) :
    (∃ f, Reads text f) ↔ ∃ vars tokens, Grammatical (contentOf text) vars tokens := by
  constructor
  · rintro ⟨f, reads⟩
    obtain ⟨tokens, described⟩ := (reads_iff moderate).mp reads
    exact ⟨f.varCount, tokens, described.grammatical⟩
  · rintro ⟨vars, tokens, grammatical⟩
    obtain ⟨f, rfl, clauses⟩ :=
      Formula.exists_toInts vars (groups tokens) fun _ => zero_not_mem_of_mem_groups
    exact ⟨f, (reads_iff moderate).mpr ⟨tokens, grammatical, clauses⟩⟩

theorem Grammatical.reads_iff {text : String} {f : Formula} {vars : Nat} {tokens : List Int}
    (grammatical : Grammatical (contentOf text) vars tokens) (moderate : Moderate (contentOf text)) :
    Reads text f ↔ f.varCount = vars ∧ f.toInts = groups tokens := by
  rw [Dimacs.reads_iff moderate]
  constructor
  · rintro ⟨tokens', described⟩
    obtain ⟨rfl, rfl⟩ := described.grammatical.unique grammatical
    exact ⟨rfl, described.clauses⟩
  · rintro ⟨rfl, clauses⟩
    exact ⟨tokens, grammatical, clauses⟩

theorem Reads.of_agree {text text' : String} {f : Formula} (reads : Reads text f)
    (moderate : Moderate (contentOf text))
    (agree : AgreeButForCount (contentOf text) (contentOf text')) : Reads text' f := by
  obtain ⟨tokens, grammatical, clauses⟩ := (reads_iff moderate).mp reads
  exact (reads_iff (moderate.of_agree agree)).mpr ⟨tokens, grammatical.of_agree agree, clauses⟩

/-- Reading a text whose problem line announces no more than 2 ^ 31 variables ends without a fault. It
yields a formula exactly if the text follows the grammar, and then the formula has the number of
variables announced and the clauses that the integers make. The number of clauses announced never
matters. -/
theorem readText_exact (text : String) (moderate : Moderate (contentOf text)) :
    (∃ outcome, readText text = .ok outcome) ∧
    ((∃ f, Reads text f) ↔ ∃ vars tokens, Grammatical (contentOf text) vars tokens) ∧
    (∀ f vars tokens, Grammatical (contentOf text) vars tokens →
      (Reads text f ↔ f.varCount = vars ∧ f.toInts = groups tokens)) ∧
    ∀ text', AgreeButForCount (contentOf text) (contentOf text') →
      ∀ f, Reads text f ↔ Reads text' f := by
  obtain ⟨outcome, read, -⟩ := readText_yields moderate
  refine ⟨⟨outcome, read⟩, exists_reads_iff moderate, fun f vars tokens grammatical =>
    grammatical.reads_iff moderate, fun text' agree f => ?_⟩
  exact ⟨fun reads => reads.of_agree moderate agree, fun reads =>
    reads.of_agree (moderate.of_agree agree) agree.symm⟩

/-- A comment, a clause that goes over two lines, and a line that ends the input amid another one. -/
def spread : String := "c spread\np cnf 3 9\n1 -2\n0 +3\n%\np cnf\n"

theorem readText_exact_spread : contentOf spread = ["p cnf 3 9".toList, "1 -2".toList, "0 +3".toList] ∧
    Moderate (contentOf spread) ∧ Grammatical (contentOf spread) 3 [1, -2, 0, 3] ∧
    ∀ f, Reads spread f ↔ f.varCount = 3 ∧ f.toInts = [[1, -2], [3]] := by
  have content : contentOf spread = ["p cnf 3 9".toList, "1 -2".toList, "0 +3".toList] := by
    decide +kernel
  have announces : Announces "p cnf 3 9".toList 3 9 := header?_eq_some_iff.mp (by decide +kernel)
  have moderate : Moderate (contentOf spread) := by
    rw [content]
    rintro _ ⟨⟩ vars clauses other
    rw [other.unique announces]
    decide
  have grammatical : Grammatical (contentOf spread) 3 [1, -2, 0, 3] := by
    rw [content]
    refine ⟨⟨_, rfl, 9, announces⟩, ⟨by decide +kernel, ?_⟩, by decide⟩
    have words : ["1 -2".toList, "0 +3".toList].flatMap Text.words =
        ["1".toList, "-2".toList, "0".toList, "+3".toList] := by decide +kernel
    rw [List.tail_cons, words]
    refine .cons ?_ (.cons ?_ (.cons ?_ (.cons ?_ .nil))) <;>
      exact Text.signed?_eq_some_iff.mp (by decide +kernel)
  exact ⟨content, moderate, grammatical, fun f =>
    (readText_exact spread moderate).2.2.1 f 3 _ grammatical⟩

/-! ## Bytes -/

/-- The trimmed lines of bytes that are no blank lines or comments, up to the end of the input or to a
line that is no text. -/
def contentOfBytes (bytes : List UInt8) : List (List Char) := contentLines (readable (byteLines bytes))

def Parses (bytes : List UInt8) (f : Formula) : Prop :=
  ∃ warnings, readBytes bytes = .ok (.ok f, warnings)

theorem Parses.unique {bytes : List UInt8} {f f' : Formula} (one : Parses bytes f)
    (other : Parses bytes f') : f = f' := by
  obtain ⟨warnings, read⟩ := one
  obtain ⟨warnings', read'⟩ := other
  cases read.symm.trans read'
  rfl

/-- A text is read the same from its characters and from its bytes. -/
theorem parses_encode_iff (text : String) (f : Formula) :
    Parses (encode text.toList) f ↔ Reads text f := by
  rw [Parses, Reads, readBytes, readText, byteLines_encode]

theorem contentOfBytes_encode (text : String) :
    contentOfBytes (encode text.toList) = contentOf text := by
  rw [contentOfBytes, contentOf, byteLines_encode, textLines, readable_map_ok]

/-- Reading bytes ends without a fault, in a formula of moderate size or in an error. -/
theorem readBytes_yields {bytes : List UInt8} (moderate : Moderate (contentOfBytes bytes)) :
    Yields (readBytes bytes) fun outcome => ∀ f, outcome.1 = .ok f → f.varCount ≤ 2 ^ 31 := by
  refine (read_yields moderate).imp fun outcome same f given => ?_
  obtain ⟨-, tokens, described⟩ := (same f).mp given
  obtain ⟨line, first, clauses, announces⟩ := described.grammatical.problem
  exact moderate line first _ _ announces

end ClauseLearning.Dimacs
