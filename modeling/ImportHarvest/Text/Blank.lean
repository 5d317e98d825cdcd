/-!
Blank characters, and the text that is left when blanks are taken off its ends.

A character is blank when it has the Unicode property White_Space. Zero-width characters and the byte order mark do
not have it, so they stay.
-/

namespace ImportHarvest.Text

/-- the characters with the property White_Space -/
def isBlank (c : Char) : Bool :=
  let n := c.toNat
  (9 ≤ n && n ≤ 13) || n == 0x20 || n == 0x85 || n == 0xA0 || n == 0x1680 || (0x2000 ≤ n && n ≤ 0x200A)
    || n == 0x2028 || n == 0x2029 || n == 0x202F || n == 0x205F || n == 0x3000

/-- the text without the blanks at its end -/
def trimEnd (cs : List Char) : List Char := (cs.reverse.dropWhile isBlank).reverse

/-- the text without the blanks at its two ends -/
def trim (cs : List Char) : List Char := trimEnd (cs.dropWhile isBlank)

/-- the string without the blanks at its two ends -/
def trimmed (s : String) : String := String.ofList (trim s.toList)

/-- nothing but blanks, or nothing at all -/
def isAllBlank (s : String) : Bool := s.toList.all isBlank

end ImportHarvest.Text
