/-!
# Blanks

The characters with the Unicode property `White_Space`, and the three things a reader does with
them: cutting them off at either end of a text and splitting a text into its words. Texts are
lists of characters here, so that the laws are laws on lists.
-/

namespace FilterForest
namespace Text

/-- The code points with the property `White_Space`, as closed ranges in ascending order. -/
def blankRanges : List (Nat × Nat) :=
  [(0x09, 0x0D), (0x20, 0x20), (0x85, 0x85), (0xA0, 0xA0), (0x1680, 0x1680), (0x2000, 0x200A),
    (0x2028, 0x2029), (0x202F, 0x202F), (0x205F, 0x205F), (0x3000, 0x3000)]

def isBlank (c : Char) : Bool :=
  blankRanges.any fun range => range.1 ≤ c.toNat && c.toNat ≤ range.2

def trimStart (s : List Char) : List Char := s.dropWhile isBlank

def trimEnd (s : List Char) : List Char := (s.reverse.dropWhile isBlank).reverse

def trim (s : List Char) : List Char := trimEnd (trimStart s)

/-- The longest runs without a blank, in order. -/
def words (s : List Char) : List (List Char) :=
  (s.splitOnP isBlank).filter fun word => !word.isEmpty

theorem ne_nil_of_mem_words {s word : List Char} (h : word ∈ words s) : word ≠ [] := by
  simpa using (List.mem_filter.1 h).2

end Text
end FilterForest
