/-! # Lines

A line ends at its line feed; a line feed at the end of a text begins no further line. -/

namespace TestMatrix

def splitLines : List Char → List (List Char)
  | [] => []
  | c :: rest =>
    if c = '\n' then [] :: splitLines rest
    else
      match splitLines rest with
      | line :: others => (c :: line) :: others
      | [] => [[c]]

/-- White space in the sense of Unicode's property of this name. -/
def isWhiteSpace (c : Char) : Bool :=
  let n := c.toNat
  (0x9 ≤ n && n ≤ 0xD) || n == 0x20 || n == 0x85 || n == 0xA0 || n == 0x1680 ||
    (0x2000 ≤ n && n ≤ 0x200A) || n == 0x2028 || n == 0x2029 || n == 0x202F || n == 0x205F ||
    n == 0x3000

def trimEnd (line : List Char) : List Char := (line.reverse.dropWhile isWhiteSpace).reverse

end TestMatrix
