/-! # Blank characters

The characters that separate words are those with the Unicode property `White_Space`.
-/

namespace ClauseLearning.Text

/-- Whether a character has the property `White_Space`. -/
def isBlank (c : Char) : Bool :=
  let n := c.toNat
  (0x09 ≤ n && n ≤ 0x0D) || n == 0x20 || n == 0x85 || n == 0xA0 || n == 0x1680 ||
    (0x2000 ≤ n && n ≤ 0x200A) || n == 0x2028 || n == 0x2029 || n == 0x202F || n == 0x205F ||
    n == 0x3000

def trim (cs : List Char) : List Char :=
  ((cs.dropWhile isBlank).reverse.dropWhile isBlank).reverse

/-- The words of a text: the longest pieces without blanks, in order. -/
def words (cs : List Char) : List (List Char) := (cs.splitOnP isBlank).filter fun word => !word.isEmpty

end ClauseLearning.Text
