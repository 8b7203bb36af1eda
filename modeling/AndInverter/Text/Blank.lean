/-!
White space, trimming, and splitting into words.

* `isBlank` is the Unicode property `White_Space`, which is larger than core's class;
* `trim` drops blanks at both ends, `words` splits at blanks.
-/

namespace AndInverter.Text

/-- The characters with the Unicode property `White_Space`. -/
def isBlank (c : Char) : Bool :=
  let n := c.toNat
  (9 ≤ n && n ≤ 13) || n == 0x20 || n == 0x85 || n == 0xA0 || n == 0x1680 ||
    (0x2000 ≤ n && n ≤ 0x200A) || n == 0x2028 || n == 0x2029 || n == 0x202F || n == 0x205F ||
    n == 0x3000

/-- A text without anything but blanks. -/
def isAllBlank (s : List Char) : Bool := s.all isBlank

/-- Drops the blanks at both ends. -/
def trim (s : List Char) : List Char :=
  ((s.dropWhile isBlank).reverse.dropWhile isBlank).reverse

/-- Puts a character in front of the first of some words. -/
def prependToFirst (c : Char) : List (List Char) → List (List Char)
  | [] => [[c]]
  | w :: ws => (c :: w) :: ws

/-- The longest stretches without blanks. -/
def words : List Char → List (List Char)
  | [] => []
  | c :: rest =>
    if isBlank c then words rest
    else if rest.head?.all isBlank then [c] :: words rest
    else prependToFirst c (words rest)

end AndInverter.Text
